import KernelEventsTrace.Lib.Border
import KernelEventsTrace.Proofs.String.Reachable

/-!
# `KernelEventsTrace.Proofs.String.Find`: string matching finds the first occurrence

`ComputeLpsArray` fills `lps` with the failure function of the pattern (`computeLpsArray_spec`),
and `KmpSearch` with that table makes a `Scan` of the text (`kmpSearch_spec`). Both loops make
`2 * i - j` greater in each round, for the index `i` that only grows and the index `j` that falls
back. This bounds their rounds by twice the size.

* `find_first_occurrence`: for a pattern that is not empty, the matcher and `Find` return the first
  occurrence, like the naive search.
* `find_empty_faults`: for an empty pattern, the table has no element, and `ComputeLpsArray` writes
  its first one.
-/

set_option autoImplicit false

namespace KernelEventsTrace.Driver.Std

open KernelEventsTrace (BufferFault Buffer whileLoop whileLoop_rule RoundMeets OccursAt Border
  Failure Candidate Scan candidate_one scan_zero border_zero)

variable {α : Type}

/-! ### Specification -/

/-- The value is the first index at which the pattern stands in the text, or it is `size_t(-1)` and
the pattern stands nowhere. -/
structure IsFirst (pattern text : List α) (r : Nat) : Prop where
  notFound_iff : r = notFound ↔ ∀ i, ¬ OccursAt pattern text i
  least : r ≠ notFound → OccursAt pattern text r ∧ ∀ i, OccursAt pattern text i → r ≤ i

/-- The search that tries every index of the text in turn. -/
def naiveFind [DecidableEq α] (text pattern : List α) : Nat :=
  ((List.range text.length).find? fun i => pattern.isPrefixOf (text.drop i)).getD notFound

variable {p t : List α} {r r' : Nat}

/-- There is one first occurrence. -/
theorem IsFirst.unique (h : IsFirst p t r) (h' : IsFirst p t r') : r = r' := by
  by_cases hr : r = notFound
  · rw [hr, h'.notFound_iff.mpr (h.notFound_iff.mp hr)]
  · have hr' : r' ≠ notFound := fun hn => hr (h.notFound_iff.mpr (h'.notFound_iff.mp hn))
    obtain ⟨hocc, hleast⟩ := h.least hr
    obtain ⟨hocc', hleast'⟩ := h'.least hr'
    exact Nat.le_antisymm (hleast r' hocc') (hleast' r hocc)

/-- A pattern that is not empty stands in front of the end. -/
theorem lt_of_occursAt (hp : p ≠ []) {i : Nat} (h : OccursAt p t i) :
    i + p.length ≤ t.length := by
  have hpos := List.length_pos_iff.mpr hp
  have hlen := List.IsPrefix.length_le h
  rw [List.length_drop] at hlen
  omega

/-- The least place where the pattern occurs. -/
theorem IsFirst.of_occurs (hp : p ≠ []) (ht : t.length < 2 ^ 64) (hocc : OccursAt p t r)
    (hleast : ∀ i, OccursAt p t i → r ≤ i) : IsFirst p t r := by
  have hpos := List.length_pos_iff.mpr hp
  have hlt := lt_of_occursAt hp hocc
  refine ⟨⟨fun hr => ?_, fun hn => absurd hocc (hn r)⟩, fun _ => ⟨hocc, hleast⟩⟩
  unfold notFound at hr
  omega

/-- The pattern does not occur. -/
theorem isFirst_notFound (h : ∀ i, ¬ OccursAt p t i) : IsFirst p t notFound :=
  ⟨iff_of_true rfl h, fun hne => absurd rfl hne⟩

/-- A search that tries every place finds the first occurrence. -/
theorem isFirst_naiveFind [DecidableEq α] (hp : p ≠ []) (ht : t.length < 2 ^ 64) :
    IsFirst p t (naiveFind t p) := by
  unfold naiveFind
  have hpos := List.length_pos_iff.mpr hp
  cases hfind : (List.range t.length).find? fun i => p.isPrefixOf (t.drop i) with
  | none =>
    refine isFirst_notFound fun i hi => ?_
    have hlt := lt_of_occursAt hp hi
    have hno := List.find?_eq_none.mp hfind i (List.mem_range.mpr (by omega))
    exact hno (List.isPrefixOf_iff_prefix.mpr hi)
  | some r =>
    obtain ⟨hr, -, hbefore⟩ := List.find?_range_eq_some.mp hfind
    refine IsFirst.of_occurs hp ht (List.isPrefixOf_iff_prefix.mp hr) fun i hi => ?_
    by_contra hlt
    have hno := hbefore i (Nat.lt_of_not_le hlt)
    rw [List.isPrefixOf_iff_prefix.mpr hi] at hno
    cases hno

/-! ### The table -/

namespace KmpMatcher

/-- The first `n` entries of the table are right. -/
def TableUpTo (p : List α) (lps : Buffer Nat) (n : Nat) : Prop :=
  ∀ q, q < n → ∃ b, lps.cells[q]? = some b ∧ Failure p (q + 1) b

/-- The invariant of the loop of `ComputeLpsArray`. -/
structure LpsInv (p : List α) (v : LpsVars) : Prop where
  le : v.i ≤ p.length
  size : v.lps.cells.length = p.length
  table : TableUpTo p v.lps v.i
  candidate : Candidate p v.i v.length

/-- What the rounds of `ComputeLpsArray` make smaller. -/
def lpsMeasure (p : List α) (v : LpsVars) : Nat := 2 * p.length + v.length - 2 * v.i

/-- One more entry. -/
theorem LpsInv.write {v : LpsVars} (h : LpsInv p v) (hi : v.i < p.length) {b : Nat}
    (hb : Failure p (v.i + 1) b) :
    ∃ lps', v.lps.write v.i b = .ok lps' ∧ LpsInv p ⟨b, v.i + 1, lps'⟩ := by
  have hsize := h.size
  refine ⟨_, Buffer.write_of_lt (by omega) b, hi, ?_, fun q hq => ?_, hb.candidate⟩
  · rw [Buffer.cells_array, List.length_set, hsize]
  · show ∃ c, (v.lps.cells.set v.i b)[q]? = some c ∧ _
    rw [List.getElem?_set]
    by_cases hqi : v.i = q
    · subst hqi
      rw [if_pos rfl, if_pos (by omega)]
      exact ⟨b, rfl, hb⟩
    · rw [if_neg hqi]
      exact h.table q (by have : q < v.i + 1 := hq; omega)

variable [DecidableEq α]

/-- A round keeps the invariant, whichever of its three branches it takes. -/
theorem LpsInv.round {v : LpsVars} (h : LpsInv p v) (hi : v.i < p.length) {pattern : Buffer α}
    (hp : p <+: pattern.cells) :
    ∃ v', lpsRound pattern v = .ok v' ∧ LpsInv p v' ∧ lpsMeasure p v' < lpsMeasure p v := by
  have hlt := h.candidate.lt
  have hget : p[v.i]? = some p[v.i] := List.getElem?_eq_getElem hi
  have hget' : p[v.length]? = some p[v.length] := List.getElem?_eq_getElem (by omega)
  unfold lpsRound lpsMeasure
  rw [Buffer.read_initial hp hi, Buffer.read_initial hp (show v.length < p.length by omega)]
  show ∃ v', (if p[v.i] = p[v.length] then _ else _) = _ ∧ _
  by_cases heq : p[v.i] = p[v.length]
  · -- The border goes on.
    rw [if_pos heq]
    have hnext := h.candidate.extend (by rw [hget, hget', heq])
    obtain ⟨lps', hlps', hinv⟩ := h.write hi hnext
    refine ⟨⟨v.length + 1, v.i + 1, lps'⟩, ?_, hinv, ?_⟩
    · show (v.lps.write v.i (v.length + 1) >>= _) = _
      rw [hlps']
      rfl
    · show 2 * p.length + (v.length + 1) - 2 * (v.i + 1) < _
      omega
  · rw [if_neg heq]
    have hne : p[v.i]? ≠ p[v.length]? := by
      rw [hget, hget']
      exact fun hsome => heq (Option.some.inj hsome)
    by_cases hzero : v.length = 0
    · -- No border goes on.
      rw [if_neg (not_not_intro hzero)]
      rw [hzero] at hne
      have hnone := Candidate.none (hzero ▸ h.candidate) hne
      obtain ⟨lps', hlps', hinv⟩ := h.write hi hnone
      refine ⟨⟨v.length, v.i + 1, lps'⟩, ?_, by rw [hzero]; exact hinv, ?_⟩
      · show (v.lps.write v.i 0 >>= _) = _
        rw [hlps']
        rfl
      · show 2 * p.length + v.length - 2 * (v.i + 1) < _
        omega
    · -- A shorter border is tried.
      rw [if_pos hzero]
      obtain ⟨b, hread, hfail⟩ := h.table (v.length - 1) (by omega)
      rw [show v.length - 1 + 1 = v.length by omega] at hfail
      have hshort := hfail.lt
      refine ⟨⟨b, v.i, v.lps⟩, ?_, ⟨h.le, h.size, h.table, h.candidate.fallback hne hfail⟩, ?_⟩
      · show (v.lps.read (v.length - 1) >>= _) = _
        rw [Buffer.read_of_getElem? hread]
        rfl
      · show 2 * p.length + b - 2 * v.i < _
        omega

/-- The table is the failure function of the pattern. -/
theorem computeLpsArray_spec (hne : p ≠ []) {pattern : Buffer α} (hp : p <+: pattern.cells)
    {lps : Buffer Nat} (hlps : lps.cells.length = p.length) {rounds : Nat}
    (hrounds : 2 * p.length ≤ rounds) :
    ∃ lps', computeLpsArray rounds pattern p.length lps = .ok (some lps') ∧
      TableUpTo p lps' p.length := by
  have hpos := List.length_pos_iff.mpr hne
  unfold computeLpsArray
  rw [Buffer.write_of_lt (by omega)]
  refine whileLoop_rule (I := LpsInv p) (lpsMeasure p) ?_ ?_ ?_ ?_ ?_
  · intro v h htest
    have hlt : v.i < p.length := of_decide_eq_true htest
    unfold lpsMeasure
    omega
  · intro v h htest
    obtain ⟨v', hv', hinv, hlt⟩ := h.round (of_decide_eq_true htest) hp
    refine .inl ⟨v', ?_, hinv, hlt⟩
    rw [hv']
    rfl
  · intro v h htest
    have hle := h.le
    have hge : ¬ v.i < p.length := of_decide_eq_false htest
    rw [show p.length = v.i by omega]
    exact h.table
  · refine ⟨hpos, by simpa using hlps, fun q hq => ?_, candidate_one⟩
    obtain rfl : q = 0 := Nat.lt_one_iff.mp hq
    refine ⟨0, ?_, candidate_one.toBorder, fun c hc => Nat.le_of_lt_succ hc.lt⟩
    show (lps.cells.set 0 0)[0]? = _
    rw [List.getElem?_set_self (by omega)]
  · show 2 * p.length + 0 - 2 * 1 ≤ rounds
    omega

/-! ### The search -/

/-- The matcher has the text, the pattern, and its table. -/
structure Ready (p t : List α) (m : KmpMatcher α) : Prop where
  text : t <+: m.text.cells
  textSize : m.textSize = t.length
  pattern : p <+: m.pattern.cells
  patternSize : m.patternSize = p.length
  table : TableUpTo p m.lps p.length

/-- The invariant of the loop of `KmpSearch`. -/
structure SearchInv (p t : List α) (v : SearchVars) : Prop extends Scan p t v.i v.j where
  text : v.i ≤ t.length
  pattern : v.j < p.length

/-- What the rounds of `KmpSearch` make smaller. -/
def searchMeasure (t : List α) (v : SearchVars) : Nat := 2 * t.length + v.j - 2 * v.i

variable {m : KmpMatcher α} {v : SearchVars}

/-- The end of a round moves forward, unless the pattern goes on or the text ends. -/
theorem SearchInv.next (h : SearchInv p t v) (hm : Ready p t m) :
    ∃ v', m.searchNext v = .ok v' ∧ SearchInv p t v' ∧ searchMeasure t v' ≤ searchMeasure t v ∧
      (v.i < t.length → p[v.j]? ≠ t[v.i]? → searchMeasure t v' < searchMeasure t v) := by
  have hj := h.pattern
  have hle := h.le
  unfold searchNext searchMeasure
  rw [hm.textSize]
  by_cases hi : v.i < t.length
  · rw [if_pos hi, Buffer.read_initial hm.pattern hj, Buffer.read_initial hm.text hi]
    have hget : p[v.j]? = some p[v.j] := List.getElem?_eq_getElem hj
    have hget' : t[v.i]? = some t[v.i] := List.getElem?_eq_getElem hi
    show ∃ v', (if p[v.j] ≠ t[v.i] then _ else _) = _ ∧ _
    by_cases heq : p[v.j] = t[v.i]
    · -- The pattern goes on, and the next round moves forward.
      rw [if_neg (not_not_intro heq)]
      exact ⟨v, rfl, h, Nat.le_refl _, fun _ hne => absurd (by rw [hget, hget', heq]) hne⟩
    · rw [if_pos heq]
      have hne : p[v.j]? ≠ t[v.i]? := by
        rw [hget, hget']
        exact fun hsome => heq (Option.some.inj hsome)
      by_cases hzero : v.j = 0
      · -- The next occurrence begins later.
        rw [if_neg (not_not_intro hzero)]
        rw [hzero] at hne
        have hskip := Scan.skip (hzero ▸ h.toScan) hne (by omega)
        refine ⟨⟨v.i + 1, v.j⟩, rfl, ⟨by rw [hzero]; exact hskip, hi, hj⟩, ?_, fun _ _ => ?_⟩
        · show 2 * t.length + v.j - 2 * (v.i + 1) ≤ _
          omega
        · show 2 * t.length + v.j - 2 * (v.i + 1) < _
          omega
      · -- The pattern falls back to its longest border.
        rw [if_pos hzero]
        obtain ⟨b, hread, hfail⟩ := hm.table (v.j - 1) (by omega)
        rw [show v.j - 1 + 1 = v.j by omega] at hfail
        have hshort := hfail.lt
        have hlt : 2 * t.length + b - 2 * v.i < 2 * t.length + v.j - 2 * v.i := by omega
        refine ⟨⟨v.i, b⟩, ?_, ⟨h.toScan.fallback hne hj hfail, h.text, by show b < _; omega⟩,
          Nat.le_of_lt hlt, fun _ _ => hlt⟩
        show (m.lps.read (v.j - 1) >>= _) = _
        rw [Buffer.read_of_getElem? hread]
        rfl
  · -- The text is at its end.
    rw [if_neg hi]
    exact ⟨v, rfl, h, Nat.le_refl _, fun hlt => absurd hlt hi⟩

/-- A round of the search. -/
theorem SearchInv.round (h : SearchInv p t v) (hm : Ready p t m) (hi : v.i < t.length)
    (hne : p ≠ []) (ht : t.length < 2 ^ 64) :
    RoundMeets (SearchInv p t) (IsFirst p t) (searchMeasure t) v (m.searchRound v) := by
  have hj := h.pattern
  have hget : p[v.j]? = some p[v.j] := List.getElem?_eq_getElem hj
  have hget' : t[v.i]? = some t[v.i] := List.getElem?_eq_getElem hi
  unfold searchRound
  rw [Buffer.read_initial hm.pattern hj, Buffer.read_initial hm.text hi, hm.patternSize]
  by_cases heq : p[v.j] = t[v.i]
  · have hscan := h.toScan.advance (by rw [hget, hget', heq])
    show RoundMeets _ _ _ _
      (if (if p[v.j] = t[v.i] then (⟨v.i + 1, v.j + 1⟩ : SearchVars) else v).j = _ then _ else _)
    rw [if_pos heq]
    by_cases hend : v.j + 1 = p.length
    · -- The whole pattern was found.
      rw [if_pos hend]
      have hfound := Scan.found (hend ▸ hscan)
      refine .inr ⟨v.i + 1 - p.length, by rw [← hend]; rfl, ?_⟩
      exact IsFirst.of_occurs hne ht hfound.1 hfound.2
    · -- One more character was found, and the end of the round may fall back at once.
      rw [if_neg hend]
      have hinv : SearchInv p t ⟨v.i + 1, v.j + 1⟩ := ⟨hscan, hi, by show v.j + 1 < _; omega⟩
      obtain ⟨v', hv', hinv', hle, -⟩ := hinv.next hm
      refine .inl ⟨v', by rw [hv']; rfl, hinv', Nat.lt_of_le_of_lt hle ?_⟩
      show 2 * t.length + (v.j + 1) - 2 * (v.i + 1) < 2 * t.length + v.j - 2 * v.i
      omega
  · -- The characters differ, so the end of the round moves forward.
    have hdiff : p[v.j]? ≠ t[v.i]? := by
      rw [hget, hget']
      exact fun hsome => heq (Option.some.inj hsome)
    obtain ⟨v', hv', hinv', -, hlt⟩ := h.next hm
    show RoundMeets _ _ _ _
      (if (if p[v.j] = t[v.i] then (⟨v.i + 1, v.j + 1⟩ : SearchVars) else v).j = _ then _ else _)
    rw [if_neg heq, if_neg (Nat.ne_of_lt hj)]
    exact .inl ⟨v', by rw [hv']; rfl, hinv', hlt hi hdiff⟩

/-- The search returns the first occurrence. -/
theorem kmpSearch_spec (hm : Ready p t m) (hne : p ≠ []) (ht : t.length < 2 ^ 64) {rounds : Nat}
    (hrounds : 2 * t.length ≤ rounds) :
    ∃ r, m.kmpSearch rounds = .ok (some r) ∧ IsFirst p t r := by
  unfold kmpSearch
  rw [hm.textSize]
  refine whileLoop_rule (I := SearchInv p t) (searchMeasure t) ?_ ?_ ?_ ?_ ?_
  · intro v h htest
    have hlt : v.i < t.length := of_decide_eq_true htest
    unfold searchMeasure
    omega
  · intro v h htest
    exact h.round hm (of_decide_eq_true htest) hne ht
  · intro v h htest
    have hge : ¬ v.i < t.length := of_decide_eq_false htest
    have htext := h.text
    -- No occurrence has its end behind the text.
    have hend : v.i = t.length := by omega
    exact isFirst_notFound (Scan.absent (hend ▸ h.toScan) h.pattern)
  · exact ⟨scan_zero, Nat.zero_le _, List.length_pos_iff.mpr hne⟩
  · show 2 * t.length + 0 - 2 * 0 ≤ rounds
    omega

/-- The constructor makes a matcher that is ready, if there is memory for the table. -/
theorem construct_spec {pool : Pool} (hne : p ≠ []) {text pattern : Buffer α}
    (ht : t <+: text.cells) (hp : p <+: pattern.cells) (hlimit : p.length ≤ pool.limit)
    {rounds : Nat} (hrounds : 2 * p.length ≤ rounds) :
    ∃ m, construct rounds pool text t.length pattern p.length = .ok (some m) ∧ Ready p t m := by
  unfold construct
  rw [Pool.allocate_of_le hlimit]
  have hnew : (Buffer.array (List.replicate p.length (default : Nat))).cells.length = p.length := by
    simp
  obtain ⟨lps, hlps, htable⟩ := computeLpsArray_spec hne hp hnew hrounds
  refine ⟨⟨text, t.length, pattern, p.length, lps⟩, ?_, ht, rfl, hp, rfl, htable⟩
  show (computeLpsArray rounds pattern p.length _ >>= _) = _
  rw [hlps]
  rfl

/-- An empty pattern has no table. -/
theorem construct_empty_faults (pool : Pool) (text : Buffer α) (textSize : Nat)
    (pattern : Buffer α) (rounds : Nat) :
    construct rounds pool text textSize pattern 0 = .error .outOfBounds := by
  unfold construct
  rw [Pool.allocate_of_le (Nat.zero_le _)]
  rfl

end KmpMatcher

open StringObj

section
variable [DecidableEq α]

/-- The constructor never returns, for lack of memory. Or it returns a matcher, and the search of
that takes at most two rounds for each element of the text and returns the first occurrence. -/
def MatcherFinds (pool : Pool) (text : Buffer α) (textSize : Nat) (pattern : Buffer α)
    (patternSize : Nat) : Prop :=
  (pool.limit < patternSize ∧ ∀ rounds,
    KmpMatcher.construct rounds pool text textSize pattern patternSize = .error .noMemory) ∨
  ∃ m r, KmpMatcher.construct (2 * patternSize) pool text textSize pattern patternSize =
      .ok (some m) ∧
    m.kmpSearch (2 * textSize) = .ok (some r) ∧
    IsFirst (pattern.cells.take patternSize) (text.cells.take textSize) r

/-- The matcher finds the first occurrence for every text and pattern that are not empty. -/
theorem matcherFinds (pool : Pool) {text pattern : Buffer α} {textSize patternSize : Nat}
    (htext : textSize ≤ text.cells.length) (hlt : textSize < 2 ^ 64)
    (hpattern : patternSize ≤ pattern.cells.length) (hpos : 0 < patternSize) :
    MatcherFinds pool text textSize pattern patternSize := by
  rcases Nat.lt_or_ge pool.limit patternSize with hlimit | hlimit
  · -- There is no memory for the table.
    refine .inl ⟨hlimit, fun rounds => ?_⟩
    unfold KmpMatcher.construct
    rw [Pool.allocate_of_lt hlimit]
    rfl
  · have hp : (pattern.cells.take patternSize).length = patternSize := by
      rw [List.length_take]
      exact Nat.min_eq_left hpattern
    have ht : (text.cells.take textSize).length = textSize := by
      rw [List.length_take]
      exact Nat.min_eq_left htext
    have hne : pattern.cells.take patternSize ≠ [] := List.length_pos_iff.mp (by omega)
    have hmemory : (pattern.cells.take patternSize).length ≤ pool.limit := by omega
    obtain ⟨m, hm, hready⟩ := KmpMatcher.construct_spec hne
      (List.take_prefix textSize text.cells) (List.take_prefix patternSize pattern.cells)
      hmemory (Nat.le_refl _)
    obtain ⟨r, hr, hfirst⟩ := KmpMatcher.kmpSearch_spec hready hne (by omega) (Nat.le_refl _)
    rw [ht, hp] at hm
    rw [ht] at hr
    exact .inr ⟨m, r, hm, hr, hfirst⟩

/-- `Find` agrees with the naive search. -/
theorem StringObj.Stored.find_eq {pool : Pool} {s u : StringObj α} (hs : s.Stored pool)
    (hu : u.Stored pool) (hne : u.content ≠ []) :
    s.find (2 * s.size) pool u = .ok (some (naiveFind s.content u.content)) := by
  have hlen := hs.length_content
  have hlen' := hu.length_content
  have hpos := List.length_pos_iff.mpr hne
  have hsize := hs.size_lt
  have hnaive := isFirst_naiveFind (t := s.content) hne (by omega)
  unfold StringObj.find
  by_cases hlt : s.size < u.size
  · -- The text is too short for an occurrence.
    rw [if_pos hlt]
    have hnone : IsFirst u.content s.content notFound := isFirst_notFound fun i hi => by
      have hle := lt_of_occursAt hne hi
      omega
    rw [hnaive.unique hnone]
  · have hnull : ¬ (s.elements = .null ∨ u.elements = .null) := by
      rintro (hn | hn)
      · have hzero := hs.size_eq_zero hn
        omega
      · have hzero := hu.size_eq_zero hn
        omega
    rw [if_neg hlt, if_neg hnull]
    have hlimit : u.content.length ≤ pool.limit := by
      have hcells := hu.size
      have hpool := hu.limit
      omega
    obtain ⟨m, hm, hready⟩ := KmpMatcher.construct_spec hne
      (show s.content <+: s.elements.cells from List.take_prefix _ _)
      (show u.content <+: u.elements.cells from List.take_prefix _ _) hlimit
      (show 2 * u.content.length ≤ 2 * s.size by omega)
    obtain ⟨r, hr, hfirst⟩ := KmpMatcher.kmpSearch_spec hready hne (by omega)
      (show 2 * s.content.length ≤ 2 * s.size by omega)
    rw [hlen, hlen'] at hm
    rw [hm]
    show m.kmpSearch (2 * s.size) = _
    rw [hr, hnaive.unique hfirst]

variable [inst : Inhabited α]

/-- For a pattern that is not empty, the matcher and `Find` find the first occurrence. -/
theorem find_first_occurrence (T : ElementType α inst) (pool : Pool) :
    (∀ (text pattern : Buffer α) (textSize patternSize : UInt64),
      textSize.toNat ≤ text.cells.length → patternSize.toNat ≤ pattern.cells.length →
      0 < patternSize.toNat →
      MatcherFinds pool text textSize.toNat pattern patternSize.toNat) ∧
    ∀ s u : StringObj α, s.Reachable T pool → u.Reachable T pool → u.content ≠ [] →
      s.find (2 * s.size) pool u = .ok (some (naiveFind s.content u.content)) := by
  constructor
  · intro text pattern textSize patternSize htext hpattern hpos
    exact matcherFinds pool htext textSize.toNat_lt hpattern hpos
  · intro s u hs hu hne
    exact hs.stored.find_eq hu.stored hne

/-- A text, and a pattern that overlaps itself. -/
def textAndPattern : List (StringCall WChar) :=
  [.op (.constructCstr ⟨[97, 98, 97, 98, 97, 99], by decide⟩),
    .op (.constructCstr ⟨[97, 98, 97, 99], by decide⟩)]

/-- The pattern is found at its second beginning. -/
theorem find_overlapping : ∃ s u : StringObj WChar, s.content = [97, 98, 97, 98, 97, 99] ∧
    u.content = [97, 98, 97, 99] ∧ s.find 12 ⟨64, by decide⟩ u = .ok (some 2) := by
  have hrun : runCalls .wchar ⟨64, by decide⟩ textAndPattern =
      .ok [⟨6, .array [97, 98, 97, 98, 97, 99, 0], 6⟩, ⟨4, .array [97, 98, 97, 99, 0], 4⟩] := rfl
  have hfind := (find_first_occurrence .wchar ⟨64, by decide⟩).2
    ⟨6, .array [97, 98, 97, 98, 97, 99, 0], 6⟩ ⟨4, .array [97, 98, 97, 99, 0], 4⟩
    ⟨_, _, hrun, by simp⟩ ⟨_, _, hrun, by simp⟩ (by decide)
  exact ⟨_, _, rfl, rfl, hfind⟩

end

/-! ### The empty pattern -/

section
variable [DecidableEq α]

/-- `Find` makes no fault, and returns 0. -/
def FindsAtStart (pool : Pool) (s u : StringObj α) : Prop :=
  ∃ rounds, s.find rounds pool u = .ok (some 0)

/-- A pattern with a buffer and no characters is never found: the constructor of the matcher writes
the first element of an array that has none. -/
theorem find_empty_faults (pool : Pool) (s u : StringObj α) (hs : s.elements ≠ .null)
    (hu : u.elements ≠ .null) (hempty : u.size = 0) :
    (∀ rounds, s.find rounds pool u = .error .outOfBounds) ∧ ¬ FindsAtStart pool s u := by
  have hfault : ∀ rounds, s.find rounds pool u = .error .outOfBounds := by
    intro rounds
    unfold StringObj.find
    rw [hempty, if_neg (Nat.not_lt_zero _), if_neg (not_or.mpr ⟨hs, hu⟩),
      KmpMatcher.construct_empty_faults]
    rfl
  refine ⟨hfault, fun h => ?_⟩
  obtain ⟨rounds, hfind⟩ := h
  rw [hfault] at hfind
  cases hfind

/-- The strings `a` and the empty one. -/
theorem find_empty_faults_one :
    (∀ rounds, (⟨1, .array [97, 0], 1⟩ : StringObj WChar).find rounds ⟨64, by decide⟩
      ⟨0, .array [0], 0⟩ = .error .outOfBounds) ∧
      ¬ FindsAtStart ⟨64, by decide⟩ (⟨1, .array [97, 0], 1⟩ : StringObj WChar)
        ⟨0, .array [0], 0⟩ :=
  find_empty_faults _ _ _ (by decide) (by decide) rfl

/-- The empty pattern is not found in the string `a`. -/
theorem not_findsAtStart_one :
    runCalls .wchar ⟨64, by decide⟩
        [.op (.constructCstr ⟨[97], by decide⟩), .op (.constructCstr ⟨[], by decide⟩)] =
      .ok [⟨1, .array [97, 0], 1⟩, ⟨0, .array [0], 0⟩] ∧
      ¬ FindsAtStart ⟨64, by decide⟩ (⟨1, .array [97, 0], 1⟩ : StringObj WChar)
        ⟨0, .array [0], 0⟩ := by
  refine ⟨rfl, fun h => ?_⟩
  obtain ⟨rounds, hfind⟩ := h
  have hfault : (⟨1, .array [97, 0], 1⟩ : StringObj WChar).find rounds ⟨64, by decide⟩
      ⟨0, .array [0], 0⟩ = .error .outOfBounds := rfl
  rw [hfault] at hfind
  cases hfind

end

end KernelEventsTrace.Driver.Std
