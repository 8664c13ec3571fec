import KernelEventsTrace.Proofs.Map.Range

/-!
# `KernelEventsTrace.Proofs.Map.Iteration`: iteration, ordered queries and stable iterators

`Map.Iterates m es` says that the loop from `Begin()` to `End()` visits the entries `es`, in
this order. The results about a reachable map are stated over these entries.

* `World.Reachable.iteration`: the loop visits every element once, in the order of the keys.
  `--` undoes every step of `++`, and the loop over `ReverseIterator` visits the reverse.
* `World.Reachable.orderedQueries`: `LowerBound`, `UpperBound` and `EqualRange` are places in
  the iteration.
* `World.Reachable.iterators_stable`: a modifier keeps every other entry in its node, with its
  key and value, and keeps the order of the iteration.
-/

set_option autoImplicit false

namespace KernelEventsTrace.Driver.Std

open KernelEventsTrace.RedBlack
open KernelEventsTrace.RedBlack.RbPath (plug before after)
open KernelEventsTrace.OrdMap

variable {K V : Type} {compare : K → K → Bool}

namespace Map

/-! ### Steps of the iterators -/

/-- The loop from `Begin()` to `End()` visits the entries `es`, and the iterators show them. -/
structure Iterates (m : Map K V) (es : List (Entry K V)) : Prop where
  loop : ∃ first, m.begin' = .ok first ∧
    visited m.increment (es.length + 1) first m.endIt = .ok (es.map Entry.addr)
  deref : ∀ e ∈ es, m.deref e.addr = .ok (some (e.key, e.val))

/-- The loop from `RBegin()` to `REnd()` shows the entries `es` in reverse. -/
def ReverseIterates (m : Map K V) (es : List (Entry K V)) : Prop :=
  ∃ last rits, m.rEnd = .ok last ∧
    visited m.reverseIncrement (es.length + 1) m.rBegin last = .ok rits ∧
    rits.mapM m.reverseDeref = .ok ((es.map fun e => some (e.key, e.val)).reverse)

section
variable {m : Map K V} {t : RbTree (Entry K V)}

/-- `++` at an entry goes to the position behind it, and `--` comes back from there. -/
theorem Rep.adjacent (h : m.Rep t) (hsize : t.toList.length ≤ m.size)
    {pre post : List (Entry K V)} {e : Entry K V} (hl : t.toList = pre ++ e :: post) :
    m.increment e.addr = .ok (headAddr m.nil post) ∧
      m.decrement (headAddr m.nil post) = .ok e.addr := by
  refine ⟨increment_spec h hsize hl, ?_⟩
  cases post with
  | nil =>
    have hlast := decrement_end h hsize
    rw [hl, List.reverse_append] at hlast
    exact hlast
  | cons f post =>
    have hl' : t.toList = (pre ++ [e]) ++ f :: post := by simpa using hl
    have hback := decrement_spec h hsize hl'
    rw [List.reverse_append] at hback
    exact hback

/-- The position behind a range is none of the positions in it. -/
theorem Rep.addr_ne_headAddr (h : m.Rep t) {pre mid post : List (Entry K V)}
    (hl : t.toList = pre ++ (mid ++ post)) {e : Entry K V} (he : e ∈ mid) :
    e.addr ≠ headAddr m.nil post := by
  cases post with
  | nil =>
    refine (h.get_of_mem ?_).1
    rw [hl]
    simp [he]
  | cons f post =>
    rw [← List.append_assoc] at hl
    exact h.addr_ne hl (List.mem_append_right pre he) List.mem_cons_self

/-- The loop over a range of entries visits them in order. -/
theorem Rep.visited_range (h : m.Rep t) (hsize : t.toList.length ≤ m.size)
    {pre mid post : List (Entry K V)} (hl : t.toList = pre ++ (mid ++ post)) :
    visited m.increment (mid.length + 1) (headAddr m.nil (mid ++ post)) (headAddr m.nil post)
      = .ok (mid.map Entry.addr) := by
  induction mid generalizing pre with
  | nil => simp [visited, pure, Except.pure]
  | cons e mid ih =>
    -- The loop is not at its end, and `++` goes to the head of the rest.
    have hne := h.addr_ne_headAddr hl List.mem_cons_self
    have hl' : t.toList = pre ++ e :: (mid ++ post) := hl
    have hnext := (h.adjacent hsize hl').1
    have hrest := ih (show t.toList = (pre ++ [e]) ++ (mid ++ post) by simpa using hl)
    show visited m.increment (mid.length + 1 + 1) e.addr (headAddr m.nil post) = _
    unfold visited
    simp only [ne_eq, hne, not_false_eq_true, if_true, hnext, hrest, bind, Except.bind, pure,
      Except.pure, List.map_cons]

/-- The loop over `ReverseIterator` from behind a prefix to `REnd()` shows it in reverse. -/
theorem Rep.visited_reverse (h : m.Rep t) (hsize : t.toList.length ≤ m.size)
    {pre post : List (Entry K V)} (hl : t.toList = pre ++ post) :
    ∃ rits, visited m.reverseIncrement (pre.length + 1) ⟨headAddr m.nil post⟩
        ⟨headAddr m.nil t.toList⟩ = .ok rits ∧
      rits.mapM m.reverseDeref = .ok ((pre.map fun e => some (e.key, e.val)).reverse) := by
  induction pre using List.reverseRecOn generalizing post with
  | nil =>
    rw [hl]
    exact ⟨[], by simp [visited, pure, Except.pure], rfl⟩
  | append_singleton pre e ih =>
    have hl' : t.toList = pre ++ e :: post := by simpa using hl
    obtain ⟨rits, hloop, hshow⟩ := ih hl'
    have hback := (h.adjacent hsize hl').2
    have hd := h.deref_of_mem (e := e) (by rw [hl']; simp)
    -- The loop is not at `REnd()` yet: the first entry lies in front of `post`.
    have hne : (⟨headAddr m.nil post⟩ : ReverseIterator) ≠ ⟨headAddr m.nil t.toList⟩ := by
      intro heq
      obtain ⟨f, fs, hf⟩ := List.exists_cons_of_ne_nil (l := pre ++ [e]) (by simp)
      have hfirst : t.toList = [] ++ ((f :: fs) ++ post) := by rw [hl, hf, List.nil_append]
      refine h.addr_ne_headAddr hfirst List.mem_cons_self ?_
      rw [ReverseIterator.mk.injEq, hl, hf] at heq
      exact heq.symm
    refine ⟨⟨headAddr m.nil post⟩ :: rits, ?_, ?_⟩
    · rw [List.length_append]
      unfold visited
      simp only [ne_eq, hne, not_false_eq_true, if_true, reverseIncrement, hback, bind,
        Except.bind, pure, Except.pure]
      rw [show (⟨e.addr⟩ : ReverseIterator) = ⟨headAddr m.nil (e :: post)⟩ from rfl]
      simp only [List.length_singleton, hloop]
    · simp only [List.mapM_cons, reverseDeref, hback, bind, Except.bind, hd, hshow, pure,
        Except.pure, List.map_append, List.reverse_append]
      rfl

/-- The iteration of a represented tree visits its entries in order. -/
theorem Rep.iterates (h : m.Rep t) (hsize : t.toList.length ≤ m.size) :
    m.Iterates t.toList := by
  refine ⟨⟨_, begin_spec h hsize, ?_⟩, fun e he => h.deref_of_mem he⟩
  have hrange := h.visited_range hsize (show t.toList = [] ++ (t.toList ++ []) by simp)
  rw [List.append_nil] at hrange
  exact hrange

/-- The reverse iteration shows the entries in reverse. -/
theorem Rep.reverseIterates (h : m.Rep t) (hsize : t.toList.length ≤ m.size) :
    m.ReverseIterates t.toList := by
  obtain ⟨rits, hloop, hshow⟩ :=
    h.visited_reverse hsize (show t.toList = t.toList ++ [] by simp)
  refine ⟨⟨headAddr m.nil t.toList⟩, rits, ?_, hloop, hshow⟩
  simp only [rEnd, begin_spec h hsize, bind, Except.bind, pure, Except.pure]

end

/-! ### Ordered queries -/

/-- The first of the entries whose key satisfies `P`, or `End()`. -/
def firstPosition (m : Map K V) (es : List (Entry K V)) (P : K → Bool) : Iterator :=
  ((es.find? fun e => P e.key).map Entry.addr).getD m.endIt

/-- The first entry with a property, in a list that has it from some place on. -/
theorem firstPosition_append (m : Map K V) {pre post : List (Entry K V)} {P : K → Bool}
    (hpre : ∀ e ∈ pre, P e.key = false) (hpost : ∀ e ∈ post, P e.key = true) :
    m.firstPosition (pre ++ post) P = headAddr m.nil post := by
  have hnone : pre.find? (fun e => P e.key) = none :=
    List.find?_eq_none.mpr fun e he => by simp [hpre e he]
  unfold firstPosition
  rw [List.find?_append, hnone, Option.none_or]
  cases post with
  | nil => rfl
  | cons e post => simp [hpost e List.mem_cons_self, headAddr]

/-- The search of `LowerBound` and `UpperBound` ends at the first entry that it may go left
at. The result that it carries along is the first entry behind the hole. -/
theorem boundLoop_spec [StrictWeak compare] {goLeft : K → Bool}
    (hmono : ∀ a b, compare a b = true → goLeft a = true → goLeft b = true) (fuel : Nat) :
    ∀ {m : Map K V} {p : RbPath (Entry K V)} {t : RbTree (Entry K V)},
      m.Rep (plug p t) → Sorted compare (plug p t).toList → t.height < fuel →
      (∀ e ∈ before p, goLeft e.key = false) → (∀ e ∈ after p, goLeft e.key = true) →
      ∃ pre post, boundLoop goLeft fuel m (treeAddr m.nil t) (headAddr m.nil (after p))
          = .ok (headAddr m.nil post) ∧ (plug p t).toList = pre ++ post ∧
        (∀ e ∈ pre, goLeft e.key = false) ∧ ∀ e ∈ post, goLeft e.key = true := by
  induction fuel with
  | zero => intro m p t _ _ hlt; omega
  | succ fuel ih =>
    intro m p t h hs hlt hb ha
    unfold boundLoop
    cases t with
    | nil =>
      -- The hole is the place.
      refine ⟨before p, after p, by simp [pure, Except.pure], ?_, hb, ha⟩
      rw [RbPath.toList_plug, RbTree.toList_nil, List.append_nil]
    | node c l e r =>
      have hne : e.addr ≠ m.nil := h.addr_ne_nil (d := .left)
      have hn := h.node_join (d := .left)
      simp only [RbTree.height] at hlt
      have hsort := hs
      unfold Sorted at hsort
      rw [RbPath.toList_plug, RbTree.toList_node] at hsort
      simp only [List.pairwise_append, List.pairwise_cons] at hsort
      obtain ⟨⟨-, ⟨-, ⟨her, -⟩, hle⟩, -⟩, -⟩ := hsort
      simp only [treeAddr_node, ne_eq, hne, not_false_eq_true, if_true, hn, bind, Except.bind,
        cell_key]
      by_cases hg : goLeft e.key = true
      · -- `e` and everything in its right subtree stay behind the hole.
        rw [if_pos hg]
        refine ih (p := ⟨.left, c, e, r⟩ :: p) (t := l) h hs (by omega) hb fun x hx => ?_
        simp only [after, List.cons_append, List.mem_cons, List.mem_append] at hx
        rcases hx with rfl | hx | hx
        · exact hg
        · exact hmono _ _ (her x hx) hg
        · exact ha x hx
      · -- `e` and everything in its left subtree stay in front of it.
        rw [if_neg hg]
        refine ih (p := ⟨.right, c, e, l⟩ :: p) (t := r) h hs (by omega) (fun x hx => ?_) ha
        simp only [before, List.mem_append, List.mem_singleton] at hx
        have hge : goLeft e.key = false := by simpa using hg
        rcases hx with hx | hx | rfl
        · exact hb x hx
        · by_contra hgx
          exact hg (hmono _ _ (hle x hx e List.mem_cons_self) (by simpa using hgx))
        · exact hge

section
variable [StrictWeak compare] {m : Map K V} {t : RbTree (Entry K V)}

/-- `LowerBound` is the place between the keys that are less than `key` and the others. -/
theorem WF.lowerBound (h : m.WF compare t) (key : K) :
    ∃ pre post, m.lowerBound compare key = .ok (headAddr m.nil post) ∧
      t.toList = pre ++ post ∧ (∀ e ∈ pre, compare e.key key = true) ∧
      ∀ e ∈ post, compare e.key key = false := by
  have hmono : ∀ a b, compare a b = true → (!compare a key) = true →
      (!compare b key) = true := by
    intro a b hab ha
    by_contra hb
    have hbk : compare b key = true := by simpa using hb
    simp [lt_trans hab hbk] at ha
  obtain ⟨pre, post, hrun, hl, hpre, hpost⟩ := boundLoop_spec (p := []) hmono m.fuel h.rep
    h.sorted h.height_lt_fuel (by simp [before]) (by simp [after])
  refine ⟨pre, post, ?_, hl, fun e he => by simpa using hpre e he,
    fun e he => by simpa using hpost e he⟩
  unfold Map.lowerBound
  rw [h.rep.root]
  exact hrun

/-- `UpperBound` is the place between the keys that are greater than `key` and the others. -/
theorem WF.upperBound (h : m.WF compare t) (key : K) :
    ∃ pre post, m.upperBound compare key = .ok (headAddr m.nil post) ∧
      t.toList = pre ++ post ∧ (∀ e ∈ pre, compare key e.key = false) ∧
      ∀ e ∈ post, compare key e.key = true := by
  have hmono : ∀ a b, compare a b = true → compare key a = true → compare key b = true :=
    fun a b hab ha => lt_trans ha hab
  obtain ⟨pre, post, hrun, hl, hpre, hpost⟩ := boundLoop_spec (p := []) hmono m.fuel h.rep
    h.sorted h.height_lt_fuel (by simp [before]) (by simp [after])
  refine ⟨pre, post, ?_, hl, hpre, hpost⟩
  unfold Map.upperBound
  rw [h.rep.root]
  exact hrun

/-- Between the two bounds lie exactly the entries with an equivalent key. -/
theorem WF.bounds (h : m.WF compare t) (key : K) :
    ∃ pre mid post, t.toList = pre ++ (mid ++ post) ∧
      m.lowerBound compare key = .ok (headAddr m.nil (mid ++ post)) ∧
      m.upperBound compare key = .ok (headAddr m.nil post) ∧
      (∀ e ∈ pre, compare e.key key = true) ∧ (∀ e ∈ mid, Equiv compare key e.key) ∧
      ∀ e ∈ post, compare key e.key = true := by
  obtain ⟨pre, rest, hlo, hl, hpre, hrest⟩ := h.lowerBound key
  obtain ⟨init, post, hhi, hl', hinit, hpost⟩ := h.upperBound key
  rcases List.append_eq_append_iff.mp (hl.symm.trans hl') with ⟨mid, rfl, rfl⟩ | ⟨mid, rfl, rfl⟩
  · -- What lies between the bounds is neither greater nor less than `key`.
    refine ⟨pre, mid, post, hl, hlo, hhi, hpre, fun e he => ⟨?_, ?_⟩, hpost⟩
    · exact hinit e (List.mem_append_right pre he)
    · exact hrest e (List.mem_append_left post he)
  · -- The bounds do not cross: no key is less and greater than `key`.
    have hmid : mid = [] := by
      refine List.eq_nil_iff_forall_not_mem.mpr fun e he => ?_
      have hlt := hpre e (List.mem_append_right init he)
      have hgt := hpost e (List.mem_append_left rest he)
      rw [lt_asymm hlt] at hgt
      cases hgt
    subst hmid
    simp only [List.append_nil, List.nil_append] at hl hlo hhi hpre hpost
    exact ⟨init, [], rest, hl, hlo, hhi, hpre, by simp, hpost⟩

omit [StrictWeak compare] in
/-- A place between smaller, equivalent and greater keys is where the equivalent ones are. -/
theorem filter_equiv {pre mid post : List (Entry K V)} {key : K}
    (hpre : ∀ e ∈ pre, compare e.key key = true) (hmid : ∀ e ∈ mid, Equiv compare key e.key)
    (hpost : ∀ e ∈ post, compare key e.key = true) :
    (pre ++ (mid ++ post)).filter (fun e => decide (Equiv compare key e.key)) = mid := by
  have hpre' : pre.filter (fun e => decide (Equiv compare key e.key)) = [] :=
    List.filter_eq_nil_iff.mpr fun e he => by
      simpa using fun heq : Equiv compare key e.key => not_equiv_of_lt (hpre e he) heq.symm
  have hpost' : post.filter (fun e => decide (Equiv compare key e.key)) = [] :=
    List.filter_eq_nil_iff.mpr fun e he => by simpa using not_equiv_of_lt (hpost e he)
  have hmid' : mid.filter (fun e => decide (Equiv compare key e.key)) = mid :=
    List.filter_eq_self.mpr fun e he => by simpa using hmid e he
  rw [List.filter_append, List.filter_append, hpre', hmid', hpost', List.nil_append,
    List.append_nil]

/-- A sorted sequence has at most one entry for a key. -/
theorem Sorted.length_le_one {pre mid post : List (Entry K V)} {key : K}
    (hs : Sorted compare (pre ++ (mid ++ post))) (hmid : ∀ e ∈ mid, Equiv compare key e.key) :
    mid.length ≤ 1 := by
  match mid with
  | [] => simp
  | [_] => simp
  | a :: b :: mid =>
    -- Of two neighbours the first one is less.
    unfold Sorted at hs
    rw [List.pairwise_append, List.pairwise_append] at hs
    have hab := (List.pairwise_cons.mp hs.2.1.1).1 b List.mem_cons_self
    have heq := (hmid a List.mem_cons_self).symm.trans
      (hmid b (List.mem_cons_of_mem a List.mem_cons_self))
    exact absurd heq (not_equiv_of_lt hab)

end

/-! ### Stable iterators -/

/-- Besides the iterators `gone`, every iterator to an element of `m` shows the same entry in
`m'`, and the entries are visited in the same order. -/
structure Stable (m m' : Map K V) (gone : List Iterator) : Prop where
  keeps : ∀ it, m.Element it → it ∉ gone → m'.Element it ∧ m'.deref it = m.deref it
  erased : ∀ it ∈ gone, ¬ m'.Element it
  order : ∃ es es', m.Iterates es ∧ m'.Iterates es' ∧
    (es.filter fun e => decide (e.addr ∉ gone)).Sublist es'

section
variable {m m' : Map K V} {t t' : RbTree (Entry K V)}

/-- A function is stable if the new sequence of entries has the old one in it. -/
theorem WF.stable (h : m.WF compare t) (h' : m'.WF compare t') {gone : List Iterator}
    (hsub : (t.toList.filter fun e => decide (e.addr ∉ gone)).Sublist t'.toList)
    (hgone : ∀ a ∈ gone, a ∉ treeAddrs t') : m.Stable m' gone := by
  refine ⟨fun it hit hg => ?_, fun it hit hel => hgone it hit (h'.rep.element_iff.mp hel), ?_⟩
  · obtain ⟨e, he, rfl⟩ := List.mem_map.mp (h.rep.element_iff.mp hit)
    have he' : e ∈ t'.toList := hsub.subset (List.mem_filter.mpr ⟨he, by simpa using hg⟩)
    rw [h.rep.deref_of_mem he, h'.rep.deref_of_mem he']
    exact ⟨h'.rep.element_iff.mpr (List.mem_map_of_mem he'), rfl⟩
  · exact ⟨t.toList, t'.toList, h.rep.iterates (Nat.le_of_eq h.size.symm),
      h'.rep.iterates (Nat.le_of_eq h'.size.symm), hsub⟩

/-- A function that keeps the sequence of entries is stable. -/
theorem WF.stable_same (h : m.WF compare t) (h' : m'.WF compare t) : m.Stable m' [] :=
  h.stable h' List.filter_sublist (by simp)

/-- An insertion is stable. -/
theorem Inserted.stable {key : K} {val : V} {z : Ptr} (h : m.WF compare t)
    (hins : Inserted compare m t key val z m' t') : m.Stable m' [] := by
  obtain ⟨pre, post, hl, hl'⟩ := hins.splits
  refine h.stable hins.wf (List.filter_sublist.trans ?_) (by simp)
  rw [hl, hl', List.append_sublist_append_left]
  exact List.sublist_cons_self _ _

/-- An erasure is stable: the erased entry is the only one that leaves the sequence. -/
theorem WF.stable_erase (h : m.WF compare t) (h' : m'.WF compare t')
    {pre post : List (Entry K V)} {e : Entry K V} (hl : t.toList = pre ++ e :: post)
    (hl' : t'.toList = pre ++ post) : m.Stable m' [e.addr] := by
  have hnd := h.rep.nodup
  unfold treeAddrs at hnd
  rw [hl] at hnd
  have hnd' : ((pre ++ ([e] ++ post)).map Entry.addr).Nodup := hnd
  have hfilter := filter_notMem_map hnd'
  refine h.stable h' ?_ fun a ha => ?_
  · rw [hl, hl', ← hfilter]
    simp
  · rw [List.mem_singleton.mp ha]
    unfold treeAddrs
    rw [List.map_append, List.map_cons, List.nodup_middle, List.nodup_cons] at hnd
    rw [hl', List.map_append]
    exact hnd.1

end

end Map

/-! ### Reachable maps -/

/-- In a reachable map the loop from `Begin()` to `End()` visits every element once, with
increasing keys. `--` undoes every step of `++`, `--End()` goes to the greatest entry, and the
loop over `ReverseIterator` shows the reverse sequence. -/
theorem World.Reachable.iteration [StrictWeak compare] [Inhabited K] [Inhabited V]
    {w : World K V} (h : w.Reachable compare) {i : Nat} {m : Map K V} (hm : w.map i = some m) :
    ∃ es : List (Entry K V), es.length = m.size ∧ m.Iterates es ∧
      (es.map Entry.addr).Nodup ∧ (∀ it, m.Element it ↔ it ∈ es.map Entry.addr) ∧
      (es.Pairwise fun a b => compare a.key b.key = true) ∧
      (∀ pre e post, es = pre ++ e :: post →
        m.increment e.addr = .ok (Map.headAddr m.endIt post) ∧
          m.decrement (Map.headAddr m.endIt post) = .ok e.addr) ∧
      (0 < m.size → ∃ e ∈ es, m.decrement m.endIt = .ok e.addr ∧
        ∀ x ∈ es, x = e ∨ compare x.key e.key = true) ∧
      m.ReverseIterates es ∧ (m.size = 0 → m.begin' = .ok m.endIt) := by
  obtain ⟨ts, hinv⟩ := h.inv
  have hwf := hinv.wf i m hm
  have hsize := Nat.le_of_eq hwf.size.symm
  refine ⟨(ts i).toList, hwf.size.symm, hwf.rep.iterates hsize, hwf.rep.nodup,
    fun it => hwf.rep.element_iff, hwf.sorted,
    fun pre e post hl => hwf.rep.adjacent hsize hl, fun hpos => ?_,
    hwf.rep.reverseIterates hsize, fun hzero => ?_⟩
  · have hne : (ts i).toList ≠ [] := List.ne_nil_of_length_pos (by rw [← hwf.size]; exact hpos)
    obtain ⟨pre, e, hl⟩ := (List.eq_nil_or_concat _).resolve_left hne
    rw [List.concat_eq_append] at hl
    refine ⟨e, by simp [hl], (hwf.rep.adjacent hsize hl).2, fun x hx => ?_⟩
    have hs := hwf.sorted
    unfold Map.Sorted at hs
    rw [hl] at hx hs
    rcases List.mem_append.mp hx with hx | hx
    · exact Or.inr ((List.pairwise_append.mp hs).2.2 x hx e List.mem_cons_self)
    · exact Or.inl (List.mem_singleton.mp hx)
  · have hnil : (ts i).toList = [] :=
      List.eq_nil_of_length_eq_zero (by rw [← hwf.size]; exact hzero)
    rw [Map.begin_spec hwf.rep hsize, hnil]
    rfl

/-- The map with the keys 3, 5 and 7 is visited in three steps, and backwards. -/
theorem World.sample_iteration :
    ∃ es : List (Entry Nat Nat), es.length = 3 ∧ World.sampleMap.Iterates es ∧
      World.sampleMap.ReverseIterates es ∧ ∃ e ∈ es, World.sampleMap.decrement 1 = .ok e.addr := by
  obtain ⟨es, hlen, hfor, -, -, -, -, hlast, hback, -⟩ :=
    World.sample_reachable.iteration (i := 0) (m := World.sampleMap) rfl
  obtain ⟨e, he, hdec, -⟩ := hlast (by decide)
  exact ⟨es, hlen, hfor, hback, e, he, hdec⟩

/-- In a reachable map `LowerBound` is the first position in the iteration whose key is not less,
`UpperBound` the first whose key is greater, and between the two components of `EqualRange` lie
the entries with an equivalent key, of which there is one exactly if `Find` finds it. -/
theorem World.Reachable.orderedQueries [StrictWeak compare] [Inhabited K] [Inhabited V]
    {w : World K V} (h : w.Reachable compare) {i : Nat} {m : Map K V} (hm : w.map i = some m) :
    ∃ es : List (Entry K V), es.length = m.size ∧ m.Iterates es ∧ ∀ key,
      m.lowerBound compare key = .ok (m.firstPosition es fun k => !compare k key) ∧
      m.upperBound compare key = .ok (m.firstPosition es fun k => compare key k) ∧
      ∃ lo hi range it, m.equalRange compare key = .ok (lo, hi) ∧
        range = es.filter (fun e => decide (Equiv compare key e.key)) ∧
        visited m.increment (range.length + 1) lo hi = .ok (range.map Entry.addr) ∧
        range.length ≤ 1 ∧ m.find compare key = .ok it ∧ (range ≠ [] ↔ it ≠ m.endIt) := by
  obtain ⟨ts, hinv⟩ := h.inv
  have hwf := hinv.wf i m hm
  have hsize := Nat.le_of_eq hwf.size.symm
  refine ⟨(ts i).toList, hwf.size.symm, hwf.rep.iterates hsize, fun key => ?_⟩
  obtain ⟨pre, mid, post, hl, hlo, hhi, hpre, hmid, hpost⟩ := hwf.bounds key
  have hrange := hwf.rep.visited_range hsize hl
  have hfilter := Map.filter_equiv hpre hmid hpost
  refine ⟨?_, ?_, Map.headAddr m.nil (mid ++ post), Map.headAddr m.nil post, mid, ?_⟩
  · rw [hlo, hl, m.firstPosition_append (by simpa using hpre)]
    intro e he
    rcases List.mem_append.mp he with he | he
    · simpa using (hmid e he).2
    · simpa using lt_asymm (hpost e he)
  · rw [hhi, hl, ← List.append_assoc, m.firstPosition_append _ hpost]
    intro e he
    rcases List.mem_append.mp he with he | he
    · exact lt_asymm (hpre e he)
    · exact (hmid e he).1
  · have hs := hwf.sorted
    rw [hl] at hs
    have hone : mid.length ≤ 1 := hs.length_le_one hmid
    have heqr : m.equalRange compare key =
        .ok (Map.headAddr m.nil (mid ++ post), Map.headAddr m.nil post) := by
      simp only [Map.equalRange, hlo, hhi, bind, Except.bind, pure, Except.pure]
    rcases Map.find_spec hwf key with ⟨e, he, heq, hfind⟩ | ⟨hnone, hfind⟩
    · refine ⟨_, heqr, by rw [hl, hfilter], hrange, hone, hfind, ?_⟩
      have hemid : e ∈ mid := by
        rw [← hfilter, ← hl]
        exact List.mem_filter.mpr ⟨he, by simpa using heq⟩
      exact iff_of_true (List.ne_nil_of_mem hemid) (hwf.rep.get_of_mem he).1
    · refine ⟨_, heqr, by rw [hl, hfilter], hrange, hone, hfind, ?_⟩
      have hempty : mid = [] := List.eq_nil_iff_forall_not_mem.mpr fun e he =>
        hnone e (by rw [hl]; simp [he]) (hmid e he)
      exact iff_of_false (fun hne => hne hempty) (fun hne => hne rfl)

/-- The bounds of an absent and of a present key in the map with the keys 3, 5 and 7. -/
theorem World.sample_orderedQueries :
    ∃ es : List (Entry Nat Nat), es.length = 3 ∧ World.sampleMap.Iterates es ∧
      World.sampleMap.lowerBound (fun a b => decide (a < b)) 4 =
        .ok (World.sampleMap.firstPosition es fun k => !decide (k < 4)) ∧
      World.sampleMap.upperBound (fun a b => decide (a < b)) 5 =
        .ok (World.sampleMap.firstPosition es fun k => decide (5 < k)) := by
  obtain ⟨es, hlen, hfor, hq⟩ :=
    World.sample_reachable.orderedQueries (i := 0) (m := World.sampleMap) rfl
  exact ⟨es, hlen, hfor, (hq 4).1, (hq 5).2.1⟩

/-- In a reachable map `Insert`, `operator[]`, `Erase(key)` and `Erase(position)` keep every entry
besides the erased one in its node, with its key and value and its place in the iteration. -/
theorem World.Reachable.iterators_stable [StrictWeak compare] [Inhabited K] [Inhabited V]
    {w : World K V} (h : w.Reachable compare) {i : Nat} {m : Map K V} (hm : w.map i = some m) :
    (∀ key val, ∃ it isNew m', m.insert compare key val = .ok (it, isNew, m') ∧
        m.Stable m' []) ∧
      (∀ key, ∃ it m', m.index compare key = .ok (it, m') ∧ m.Stable m' []) ∧
      (∀ key, ∃ it n m', m.find compare key = .ok it ∧ m.erase compare key = .ok (n, m') ∧
        m.Stable m' [it]) ∧
      ∀ position, m.Element position → ∃ it m', m.eraseAt position = .ok (it, m') ∧
        m.Stable m' [position] := by
  obtain ⟨ts, hinv⟩ := h.inv
  have hwf := hinv.wf i m hm
  refine ⟨fun key val => ?_, fun key => ?_, fun key => ?_, fun position hel => ?_⟩
  · rcases Map.insert_spec hwf key val with ⟨e, -, -, m', hm', hwf', -⟩ | ⟨-, m', t', hm', hins⟩
    · exact ⟨_, _, m', hm', hwf.stable_same hwf'⟩
    · exact ⟨_, _, m', hm', Map.Inserted.stable hwf hins⟩
  · rcases Map.index_spec hwf key with ⟨e, -, -, hm'⟩ | ⟨-, m', t', hm', hins⟩
    · exact ⟨_, m, hm', hwf.stable_same hwf⟩
    · exact ⟨_, m', hm', Map.Inserted.stable hwf hins⟩
  · rcases Map.find_spec hwf key with ⟨e, he, heq, hfind⟩ | ⟨hnone, hfind⟩
    · obtain ⟨pre, post, hl⟩ := List.append_of_mem he
      obtain ⟨x, m', t', hm', hwf', -, hl'⟩ := Map.eraseAt_spec hwf hl
      have hne : e.addr ≠ m.endIt := (hwf.rep.get_of_mem he).1
      refine ⟨e.addr, 1, m', hfind, ?_, hwf.stable_erase hwf' hl hl'⟩
      simp only [Map.erase, hfind, bind, Except.bind, ne_eq, hne, not_false_eq_true, if_true, hm',
        pure, Except.pure]
    · refine ⟨m.endIt, 0, m, hfind, ?_, hwf.stable hwf List.filter_sublist fun a ha => ?_⟩
      · simp [Map.erase, hfind, bind, Except.bind, Map.endIt, pure, Except.pure]
      · rw [List.mem_singleton.mp ha]
        exact hwf.rep.nil_notMem
  · obtain ⟨e, he, rfl⟩ := List.mem_map.mp (hwf.rep.element_iff.mp hel)
    obtain ⟨pre, post, hl⟩ := List.append_of_mem he
    obtain ⟨x, m', t', hm', hwf', -, hl'⟩ := Map.eraseAt_spec hwf hl
    exact ⟨x, m', hm', hwf.stable_erase hwf' hl hl'⟩

/-- The root of the map with the keys 3, 5 and 7 has two children. Its erasure keeps the other
two nodes. -/
theorem World.sample_iterators_stable :
    ∃ it m', World.sampleMap.eraseAt 2 = .ok (it, m') ∧ World.sampleMap.Stable m' [2] :=
  (World.sample_reachable.iterators_stable (i := 0) (m := World.sampleMap) rfl).2.2.2 2
    (.root (by decide))

end KernelEventsTrace.Driver.Std
