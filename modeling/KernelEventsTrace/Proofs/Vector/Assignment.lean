import KernelEventsTrace.Proofs.Vector.Bounds

/-!
# `KernelEventsTrace.Proofs.Vector.Assignment`: two loops of `Vector` that stop too early

`operator=` copies the elements into the array that is there if they fit, but its loop returns in
the first round. `Erase` moves the elements behind the erased one forward, but not the last one.

* `assign_copies_iff`: the assignment is right if and only if it takes a new array, or the array
  happens to have the other elements already.
* `erase_content_iff`: the erased vector is right if and only if the last element was erased, or the
  last two elements are equal.
-/

set_option autoImplicit false

namespace KernelEventsTrace.Driver.Std

variable {α : Type}

/-! ### Assignment -/

/-- After `a = b` the vector `i` has the elements of `b`, the vector `j` is still `b`, and `space_`
is no greater than the array. -/
def AssignCopies [Inhabited α] (pool : Pool) (vs : List (VectorObj α)) (i j : Nat)
    (b : VectorObj α) : Prop :=
  ∃ vs' a', stepVectors pool vs (.assign i j) = .ok vs' ∧ vs'[i]? = some a' ∧
    a'.size = b.size ∧ a'.content = b.content ∧ a'.space ≤ a'.elements.cells.length ∧
    vs'[j]? = some b

/-- The elements behind the first one are in the array of `a` already. -/
def RestAgrees (a b : VectorObj α) : Prop :=
  ∀ k, 0 < k → k < b.size → a.elements.cells[k]? = b.elements.cells[k]?

/-- Without `Clear` all vectors of a program are tight. -/
theorem allTight_of_no_clear [Inhabited α] {pool : Pool} {ops : List (VectorOp α)}
    (hclear : ∀ i, .clear i ∉ ops) {vs : List (VectorObj α)} (hrun : runVectors pool ops = .ok vs) :
    AllTight pool vs := by
  have hinit : AllTight pool ([] : List (VectorObj α)) := by
    intro v hv
    cases hv
  have hmeet : StepsMeet (stepVectors pool) [] ClearsEmptyAt ops := by
    intro pre op hpre s _ i v hop
    have hmem : op ∈ ops := hpre.subset (by simp)
    exact absurd (hop ▸ hmem) (hclear i)
  have htight := (stepsMeet_ignoreDeleted_iff.mpr hmeet).yields_run hinit
    fun vs op _ hvs => hvs.yields_ignoreDeleted_step op
  rw [foldlM_ignoreDeleted] at htight
  exact htight.value (ignoreDeleted_eq_ok_iff.mpr hrun)

namespace VectorObj

variable [Inhabited α] {pool : Pool} {v w : VectorObj α}

/-- The assignment that takes a new array. -/
theorem Tight.assignOther_new (hw : w.Tight pool) (hnew : ¬ (w.size ≤ v.space ∧ 0 < w.size)) :
    ∃ v', v.assignOther pool w = .ok v' ∧ v'.size = w.size ∧ v'.content = w.content ∧
      v'.space ≤ v'.elements.cells.length := by
  have hsize := hw.size
  have hlimit := hw.limit
  have hcell := hw.size_le_cells
  obtain ⟨p, hp, hwr⟩ := copyElements_spec (p := .array (List.replicate w.size default)) hcell
    (by simp)
  refine ⟨⟨w.size, p, w.size⟩, ?_, rfl, take_copyElements hcell hwr, ?_⟩
  · unfold assignOther
    rw [if_neg hnew, Pool.allocate_of_le (by omega)]
    show (w.copyElements _ >>= _) = _
    rw [hp]
    rfl
  · rw [hwr.length]
    simp

/-- The assignment in place. -/
theorem Tight.assignOther_inPlace (h : v.Tight pool) (hw : w.Tight pool)
    (hplace : w.size ≤ v.space ∧ 0 < w.size) :
    v.assignOther pool w =
      .ok ⟨w.size, .array (v.elements.cells.set 0 (w.elements.get 0)), v.space⟩ := by
  have hspace := h.space
  have hcell := hw.size_le_cells
  unfold assignOther
  rw [if_pos hplace, Buffer.read_of_lt (by omega)]
  show (v.elements.write 0 (w.elements.get 0) >>= _) = _
  rw [Buffer.write_of_lt (by omega)]
  rfl

/-- In place, only the first element is copied. -/
theorem content_inPlace_iff (hv : w.size ≤ v.elements.cells.length)
    (hw : w.size ≤ w.elements.cells.length) (hpos : 0 < w.size) :
    (⟨w.size, .array (v.elements.cells.set 0 (w.elements.get 0)), v.space⟩ : VectorObj α).content =
      w.content ↔ RestAgrees v w := by
  have hget : ∀ k, k < w.size →
      (⟨w.size, .array (v.elements.cells.set 0 (w.elements.get 0)), v.space⟩ :
        VectorObj α).content[k]? = if k = 0 then w.content[0]? else v.elements.cells[k]? := by
    intro k hk
    rw [getElem?_content (v := ⟨w.size, _, v.space⟩) hk, Buffer.cells_array]
    by_cases hk0 : k = 0
    · subst hk0
      rw [List.getElem?_set_self (by omega), if_pos rfl, content_eq_get hw hpos]
    · rw [List.getElem?_set_ne (Ne.symm hk0), if_neg hk0]
  constructor
  · intro h k hk hlt
    have hk' := hget k hlt
    rw [h, getElem?_content hlt, if_neg (Nat.pos_iff_ne_zero.mp hk)] at hk'
    exact hk'.symm
  · intro h
    refine List.ext_getElem? fun k => ?_
    rcases Nat.lt_or_ge k w.size with hlt | hge
    · rw [hget k hlt]
      by_cases hk0 : k = 0
      · rw [if_pos hk0, hk0]
      · rw [if_neg hk0, h k (Nat.pos_of_ne_zero hk0) hlt, getElem?_content hlt]
    · have hlen := length_content hw
      rw [List.getElem?_eq_none, List.getElem?_eq_none (by omega)]
      unfold content
      rw [List.length_take]
      exact Nat.le_trans (Nat.min_le_left _ _) hge

end VectorObj

/-- The assignment copies the elements if and only if it takes a new array, or finds those behind
the first one in place. -/
theorem assign_copies_iff [Inhabited α] (pool : Pool) (ops : List (VectorOp α))
    (hclear : ∀ i, .clear i ∉ ops) {vs : List (VectorObj α)} (hrun : runVectors pool ops = .ok vs)
    {i j : Nat} (hij : i ≠ j) {a b : VectorObj α} (ha : vs[i]? = some a) (hb : vs[j]? = some b) :
    AssignCopies pool vs i j b ↔ (a.space < b.size ∨ RestAgrees a b) := by
  have hall := allTight_of_no_clear hclear hrun
  have hta := hall a (List.mem_of_getElem? ha)
  have htb := hall b (List.mem_of_getElem? hb)
  have hspace := hta.space
  obtain ⟨hi, -⟩ := List.getElem?_eq_some_iff.mp ha
  have hstep : stepVectors pool vs (.assign i j) =
      (a.assignOther pool b).map fun a' => vs.set i a' := by
    show (withOperand vs i j fun arg => onVector vs i fun v => v.assign pool arg) = _
    unfold withOperand
    rw [if_neg hij]
    unfold onVector atVector
    rw [hb, ha]
    rfl
  have hset : ∀ a', (vs.set i a')[i]? = some a' ∧ (vs.set i a')[j]? = some b := by
    intro a'
    exact ⟨List.getElem?_set_self hi, by rw [List.getElem?_set_ne hij, hb]⟩
  -- What is left is a statement about the new vector.
  have hiff : ∀ a', a.assignOther pool b = .ok a' → (AssignCopies pool vs i j b ↔
      a'.size = b.size ∧ a'.content = b.content ∧ a'.space ≤ a'.elements.cells.length) := by
    intro a' ha'
    rw [ha'] at hstep
    constructor
    · rintro ⟨vs', a'', hvs', hget, hsize, hcontent, hle, -⟩
      obtain rfl : vs.set i a' = vs' := Except.ok.inj (hstep.symm.trans hvs')
      obtain rfl : a' = a'' := Option.some.inj ((hset a').1.symm.trans hget)
      exact ⟨hsize, hcontent, hle⟩
    · intro h
      exact ⟨_, a', hstep, (hset a').1, h.1, h.2.1, h.2.2, (hset a').2⟩
  by_cases hplace : b.size ≤ a.space ∧ 0 < b.size
  · -- The loop in place returns after the first element.
    rw [hiff _ (hta.assignOther_inPlace htb hplace)]
    have hcontent := VectorObj.content_inPlace_iff (v := a) (by omega) htb.size_le_cells hplace.2
    constructor
    · intro h
      exact .inr (hcontent.mp h.2.1)
    · rintro (hlt | hrest)
      · omega
      · refine ⟨rfl, hcontent.mpr hrest, ?_⟩
        show a.space ≤ (a.elements.cells.set 0 (b.elements.get 0)).length
        rw [List.length_set]
        exact Nat.le_of_eq hspace
  · -- A new array, also for an empty vector: the loop in place has no round that returns.
    obtain ⟨a', ha', hsize, hcontent, hle⟩ := htb.assignOther_new (v := a) hplace
    rw [hiff a' ha']
    refine iff_of_true ⟨hsize, hcontent, hle⟩ ?_
    rcases Nat.lt_or_ge a.space b.size with hlt | hge
    · exact .inl hlt
    · refine .inr fun k hk hlt => ?_
      omega

/-- Vectors with the elements 1, 2 and 3, 4, and one with space for a single element. -/
def threeVectors : List (VectorOp Nat) :=
  [.construct, .pushBack 0 1, .pushBack 0 2, .construct, .pushBack 1 3, .pushBack 1 4,
    .constructSize 1]

/-- The third vector has too little space, and gets an array with both elements. -/
theorem assign_copies_new : ∃ vs b, runVectors ⟨64, by decide⟩ threeVectors = .ok vs ∧
    b.content = [1, 2] ∧ AssignCopies ⟨64, by decide⟩ vs 2 0 b := by
  have hrun : runVectors ⟨64, by decide⟩ threeVectors =
      .ok [⟨2, .array [1, 2, 0, 0, 0, 0, 0, 0], 8⟩, ⟨2, .array [3, 4, 0, 0, 0, 0, 0, 0], 8⟩,
        ⟨1, .array [0], 1⟩] := rfl
  refine ⟨_, ⟨2, .array [1, 2, 0, 0, 0, 0, 0, 0], 8⟩, hrun, rfl, ?_⟩
  refine (assign_copies_iff ⟨64, by decide⟩ threeVectors ?_ hrun (by decide) rfl rfl).mpr
    (.inl (by decide))
  simp [threeVectors]

/-- The second vector has space for two elements. After the assignment it has the elements 1 and 4
instead of 1 and 2. -/
theorem not_assign_copies : ∃ vs b, runVectors ⟨64, by decide⟩ threeVectors = .ok vs ∧
    vs[0]? = some b ∧ b.content = [1, 2] ∧ ¬ AssignCopies ⟨64, by decide⟩ vs 1 0 b := by
  have hrun : runVectors ⟨64, by decide⟩ threeVectors =
      .ok [⟨2, .array [1, 2, 0, 0, 0, 0, 0, 0], 8⟩, ⟨2, .array [3, 4, 0, 0, 0, 0, 0, 0], 8⟩,
        ⟨1, .array [0], 1⟩] := rfl
  refine ⟨_, _, hrun, rfl, rfl, ?_⟩
  rintro ⟨vs', a', hstep, hget, -, hcontent, -, -⟩
  cases hstep
  cases hget
  exact absurd hcontent (by decide)

/-! ### Ordered erase -/

/-- `Erase(i)` changes nothing and returns false behind the end. Otherwise it returns true, and
leaves the elements in front of `i` and those behind it. -/
structure ErasesAt [Inhabited α] (v : VectorObj α) (i : Nat) : Prop where
  outside : v.size ≤ i → v.erase i = .ok (false, v)
  inside : i < v.size → ∃ v', v.erase i = .ok (true, v') ∧ v'.size = v.size - 1 ∧
    v'.content = v.content.take i ++ v.content.drop (i + 1)

/-- `Erase` is right if and only if it erases the last element, or the last two are equal. -/
theorem erase_content_iff [Inhabited α] {v : VectorObj α}
    (hcell : v.size ≤ v.elements.cells.length) (i : Nat) :
    ErasesAt v i ↔ (i + 1 < v.size → v.content[v.size - 2]? = v.content[v.size - 1]?) := by
  rcases Nat.lt_or_ge i v.size with hi | hi
  · have hlen := VectorObj.length_content hcell
    obtain ⟨b, hb, hblen, hcells⟩ := VectorObj.erase_spec hcell hi
    have hget : ∀ k, k < v.size - 1 →
        (⟨v.size - 1, b, v.space⟩ : VectorObj α).content[k]? =
          if i ≤ k ∧ k < v.size - 2 then v.content[k + 1]? else v.content[k]? := by
      intro k hk
      rw [VectorObj.getElem?_content (v := ⟨v.size - 1, b, v.space⟩) hk, hcells k hk,
        VectorObj.getElem?_content (by omega), VectorObj.getElem?_content (by omega)]
    constructor
    · -- The law at the position in front of the last one.
      intro h hlast
      obtain ⟨v', hv', -, hcontent⟩ := h.inside hi
      obtain rfl := (Prod.mk.inj (Except.ok.inj (hb.symm.trans hv'))).2
      have hk := hget (v.size - 2) (by omega)
      rw [hcontent, ← List.eraseIdx_eq_take_drop_succ, List.getElem?_eraseIdx, if_neg (by omega),
        if_neg (by omega), show v.size - 2 + 1 = v.size - 1 by omega] at hk
      exact hk.symm
    · intro h
      refine ⟨fun hge => by omega, fun _ => ⟨_, hb, rfl, ?_⟩⟩
      rw [← List.eraseIdx_eq_take_drop_succ]
      refine List.ext_getElem? fun k => ?_
      rw [List.getElem?_eraseIdx]
      rcases Nat.lt_or_ge k (v.size - 1) with hk | hk
      · rw [hget k hk]
        by_cases hmove : i ≤ k ∧ k < v.size - 2
        · rw [if_pos hmove, if_neg (by omega)]
        · rw [if_neg hmove]
          by_cases hki : k < i
          · rw [if_pos hki]
          · -- The element in front of the last one stays.
            have hlast := h (by omega)
            rw [if_neg hki, show k = v.size - 2 by omega, hlast,
              show v.size - 2 + 1 = v.size - 1 by omega]
      · have hlen' : (⟨v.size - 1, b, v.space⟩ : VectorObj α).content.length = v.size - 1 :=
          VectorObj.length_content (by show v.size - 1 ≤ b.cells.length; omega)
        rw [if_neg (by omega), List.getElem?_eq_none (by omega), List.getElem?_eq_none (by omega)]
  · refine iff_of_true ⟨fun _ => VectorObj.erase_of_ge hi, fun hlt => ?_⟩ fun hlt => ?_
    · omega
    · omega

/-- The last element is erased. -/
theorem erase_content_last : ErasesAt (⟨3, .array [1, 2, 3, 0], 4⟩ : VectorObj Nat) 2 :=
  (erase_content_iff (by decide) 2).mpr fun hlt => absurd hlt (by decide)

/-- The first one of the elements 1, 2, 3 is erased, and 2, 2 are left. -/
theorem not_erase_content : (⟨3, .array [1, 2, 3, 0], 4⟩ : VectorObj Nat).erase 0 =
      .ok (true, ⟨2, .array [2, 2, 0, 0], 4⟩) ∧
    ¬ ErasesAt (⟨3, .array [1, 2, 3, 0], 4⟩ : VectorObj Nat) 0 := by
  have hrun : (⟨3, .array [1, 2, 3, 0], 4⟩ : VectorObj Nat).erase 0 =
      .ok (true, ⟨2, .array [2, 2, 0, 0], 4⟩) := rfl
  refine ⟨hrun, fun h => ?_⟩
  obtain ⟨v', hv', -, hcontent⟩ := h.inside (by decide)
  rw [hrun] at hv'
  cases hv'
  exact absurd hcontent (by decide)

end KernelEventsTrace.Driver.Std
