import Mathlib.Data.List.Basic

/-!
# `KernelEventsTrace.Lib.Border`: occurrences of a pattern, and its borders

`Agrees p t s j` says that the first `j` elements of the pattern `p` stand in the text `t` at `s`.
A border of the first `n` elements of `p` is a shorter beginning of `p` that they end with too, and
`Failure p n b` says that the longest one has `b` elements. `border_iff_suffix` and
`Failure.longestBorder` read both off the list itself.

* `Candidate.extend`, `Candidate.fallback`, `Candidate.none`: how the longest border of one element
  more is found from shorter ones.
* `Scan.advance`, `Scan.fallback`, `Scan.skip`: the steps of a search from left to right, which
  pass over no occurrence.
* `Scan.found`, `Scan.absent`: what the search has shown at its end.
-/

set_option autoImplicit false

namespace KernelEventsTrace

variable {α : Type} {p t : List α} {s i j k n b c : Nat}

/-- The first `j` elements of `p` stand in `t` at `s`. -/
def Agrees (p t : List α) (s j : Nat) : Prop := ∀ k, k < j → p[k]? = t[s + k]?

/-- The whole pattern stands in the text at `s`. -/
def OccursAt (p t : List α) (s : Nat) : Prop := p <+: t.drop s

/-- An occurrence is an agreement over the length of the pattern. -/
theorem occursAt_iff : OccursAt p t s ↔ Agrees p t s p.length := by
  unfold OccursAt Agrees
  rw [List.prefix_iff_getElem?]
  constructor
  · intro h k hk
    rw [List.getElem?_eq_getElem hk, ← h k hk, List.getElem?_drop]
  · intro h k hk
    rw [List.getElem?_drop, ← h k hk, List.getElem?_eq_getElem hk]

/-- A longer agreement is a shorter one. -/
theorem Agrees.mono (h : Agrees p t s j) (hk : k ≤ j) : Agrees p t s k :=
  fun i hi => h i (by omega)

/-- One more element agrees. -/
theorem agrees_succ_iff : Agrees p t s (j + 1) ↔ Agrees p t s j ∧ p[j]? = t[s + j]? := by
  constructor
  · intro h
    exact ⟨h.mono (by omega), h j (by omega)⟩
  · intro h k hk
    rcases Nat.lt_or_ge k j with hlt | hge
    · exact h.1 k hlt
    · obtain rfl : k = j := by omega
      exact h.2

/-- What stands in the text up to the place where `j` elements of the pattern end is a part of the
pattern. -/
theorem Agrees.tail_iff (h : Agrees p t s j) (hb : b ≤ j) :
    Agrees p t (s + (j - b)) b ↔ Agrees p p (j - b) b := by
  have htail : ∀ k, k < b → t[s + (j - b) + k]? = p[j - b + k]? := by
    intro k hk
    rw [h (j - b + k) (by omega), show s + (j - b + k) = s + (j - b) + k by omega]
  constructor
  · intro hp k hk
    rw [hp k hk, htail k hk]
  · intro hp k hk
    rw [hp k hk, htail k hk]

/-! ### Borders -/

/-- The first `n` elements of `p` begin and end with the same `b` elements. -/
structure Border (p : List α) (n b : Nat) : Prop where
  lt : b < n
  agrees : Agrees p p (n - b) b

/-- The longest border of the first `n` elements has `b` of them. -/
structure Failure (p : List α) (n b : Nat) : Prop extends Border p n b where
  longest : ∀ c, Border p n c → c ≤ b

/-- The empty border. -/
theorem border_zero (h : 0 < n) : Border p n 0 := ⟨h, fun k hk => absurd hk (Nat.not_lt_zero k)⟩

/-- A border grows by an element that agrees. -/
theorem border_succ_iff : Border p (n + 1) (b + 1) ↔ Border p n b ∧ p[b]? = p[n]? := by
  constructor
  · rintro ⟨hlt, h⟩
    rw [show n + 1 - (b + 1) = n - b by omega, agrees_succ_iff,
      show n - b + b = n by omega] at h
    exact ⟨⟨by omega, h.1⟩, h.2⟩
  · rintro ⟨⟨hlt, h⟩, heq⟩
    refine ⟨by omega, ?_⟩
    rw [show n + 1 - (b + 1) = n - b by omega, agrees_succ_iff, show n - b + b = n by omega]
    exact ⟨h, heq⟩

/-- The borders of a border are the shorter borders. -/
theorem Border.border_iff (h : Border p n b) (hc : c < b) : Border p n c ↔ Border p b c := by
  have hlt := h.lt
  have htail := h.agrees.tail_iff (Nat.le_of_lt hc)
  rw [show n - b + (b - c) = n - c by omega] at htail
  constructor
  · intro hn
    exact ⟨hc, htail.mp hn.agrees⟩
  · intro hb
    exact ⟨by omega, htail.mpr hb.agrees⟩

/-- A border is a shorter beginning that is an end too. -/
theorem border_iff_suffix (hn : n ≤ p.length) :
    Border p n b ↔ b < n ∧ p.take b <:+ p.take n := by
  rw [List.suffix_iff_eq_drop, List.length_take_of_le hn]
  constructor
  · rintro ⟨hlt, hagrees⟩
    refine ⟨hlt, ?_⟩
    rw [List.length_take_of_le (by omega)]
    apply List.ext_getElem?
    intro k
    rw [List.getElem?_drop]
    rcases Nat.lt_or_ge k b with hk | hk
    · rw [List.getElem?_take_of_lt hk, List.getElem?_take_of_lt (by omega)]
      exact hagrees k hk
    · rw [List.getElem?_take_eq_none hk, List.getElem?_take_eq_none (by omega)]
  · rintro ⟨hlt, heq⟩
    rw [List.length_take_of_le (by omega)] at heq
    refine ⟨hlt, fun k hk => ?_⟩
    have hget : (p.take b)[k]? = ((p.take n).drop (n - b))[k]? := congrArg (·[k]?) heq
    rw [List.getElem?_drop, List.getElem?_take_of_lt hk, List.getElem?_take_of_lt (by omega)]
      at hget
    exact hget

/-- The longest of the lists that `w` begins and ends with, other than `w` itself, has `b`
elements. -/
structure LongestBorder (w : List α) (b : Nat) : Prop where
  proper : b < w.length
  suffix : w.take b <:+ w
  longest : ∀ u, u <+: w → u <:+ w → u ≠ w → u.length ≤ b

/-- The failure value is the longest border. -/
theorem Failure.longestBorder (h : Failure p n b) (hn : n ≤ p.length) :
    LongestBorder (p.take n) b := by
  have hlen : (p.take n).length = n := List.length_take_of_le hn
  obtain ⟨hlt, hsuffix⟩ := (border_iff_suffix hn).mp h.toBorder
  refine ⟨by omega, ?_, fun u hbegin hend hne => ?_⟩
  · rw [List.take_take, Nat.min_eq_left (Nat.le_of_lt hlt)]
    exact hsuffix
  · -- A beginning of full length is the whole list.
    have hle := hbegin.length_le
    have hshort : u.length ≠ (p.take n).length := fun heq => hne (hbegin.eq_of_length heq)
    have hu : u = p.take u.length := by
      have htake := List.prefix_iff_eq_take.mp hbegin
      rwa [List.take_take, Nat.min_eq_left (by omega)] at htake
    refine h.longest u.length ((border_iff_suffix hn).mpr ⟨by omega, ?_⟩)
    rwa [← hu]

/-- A border of `i` elements that no border of `i + 1` elements can be longer than by two. -/
structure Candidate (p : List α) (i b : Nat) : Prop extends Border p i b where
  bound : ∀ c, Border p (i + 1) c → c ≤ b + 1

/-- The first element has no border but the empty one. -/
theorem candidate_one : Candidate p 1 0 := ⟨border_zero Nat.one_pos, fun c h => by
  have hlt := h.lt
  omega⟩

/-- The next element continues the border. -/
theorem Candidate.extend (h : Candidate p i b) (heq : p[i]? = p[b]?) :
    Failure p (i + 1) (b + 1) :=
  ⟨border_succ_iff.mpr ⟨h.toBorder, heq.symm⟩, h.bound⟩

/-- The next element does not continue the border, but may continue a shorter one. -/
theorem Candidate.fallback (h : Candidate p i b) (hne : p[i]? ≠ p[b]?) (hc : Failure p b c) :
    Candidate p i c := by
  refine ⟨(h.border_iff hc.lt).mpr hc.toBorder, fun d hd => ?_⟩
  cases d with
  | zero => exact Nat.zero_le _
  | succ d =>
    obtain ⟨hborder, heq⟩ := border_succ_iff.mp hd
    have hle := h.bound (d + 1) hd
    have hne' : d ≠ b := by
      intro hdb
      subst hdb
      exact hne heq.symm
    have hlong := hc.longest d ((h.border_iff (by omega)).mp hborder)
    omega

/-- No border is left that could be continued. -/
theorem Candidate.none (h : Candidate p i 0) (hne : p[i]? ≠ p[0]?) : Failure p (i + 1) 0 := by
  refine ⟨border_zero (Nat.succ_pos i), fun d hd => ?_⟩
  cases d with
  | zero => exact Nat.le_refl 0
  | succ d =>
    have hle := h.bound (d + 1) hd
    obtain rfl : d = 0 := by omega
    exact absurd (border_succ_iff.mp hd).2.symm hne

/-- The next round begins with the longest border. -/
theorem Failure.candidate (h : Failure p i b) : Candidate p i b := by
  refine ⟨h.toBorder, fun c hc => ?_⟩
  cases c with
  | zero => exact Nat.zero_le _
  | succ c =>
    have hlong := h.longest c (border_succ_iff.mp hc).1
    omega

/-! ### Search -/

/-- The search has read `i` elements of the text. They end with the first `j` elements of the
pattern, and every occurrence begins there or later. -/
structure Scan (p t : List α) (i j : Nat) : Prop where
  le : j ≤ i
  agrees : Agrees p t (i - j) j
  first : ∀ s, OccursAt p t s → i - j ≤ s

/-- At the start nothing was scanned. -/
theorem scan_zero : Scan p t 0 0 :=
  ⟨Nat.le_refl 0, fun k hk => absurd hk (Nat.not_lt_zero k), fun s _ => Nat.zero_le s⟩

/-- The next element of the text is the next element of the pattern. -/
theorem Scan.advance (h : Scan p t i j) (heq : p[j]? = t[i]?) : Scan p t (i + 1) (j + 1) := by
  have hle := h.le
  have hdiff : i + 1 - (j + 1) = i - j := by omega
  refine ⟨by omega, ?_, ?_⟩
  · rw [hdiff, agrees_succ_iff, show i - j + j = i by omega]
    exact ⟨h.agrees, heq⟩
  · rw [hdiff]
    exact h.first

/-- The next element of the text does not fit. An occurrence that begins before the end of the
text that was read begins with a border of what was found. -/
theorem Scan.fallback (h : Scan p t i j) (hne : p[j]? ≠ t[i]?) (hj : j < p.length)
    (hb : Failure p j b) : Scan p t i b := by
  have hle := h.le
  have hlt := hb.lt
  have hstart : i - j + (j - b) = i - b := by omega
  refine ⟨by omega, ?_, fun s hs => ?_⟩
  · rw [← hstart]
    exact (h.agrees.tail_iff (Nat.le_of_lt hlt)).mpr hb.agrees
  · have hfirst := h.first s hs
    by_contra hbefore
    have hall := occursAt_iff.mp hs
    -- The occurrence covers the last `c` elements that were read.
    obtain ⟨c, hc⟩ : ∃ c, i = s + c := ⟨i - s, by omega⟩
    have hcj : c ≤ j := by omega
    rcases Nat.lt_or_ge c j with hcj | hcj
    · have hcover : Agrees p t (i - j + (j - c)) c := by
        rw [show i - j + (j - c) = s by omega]
        exact hall.mono (by omega)
      have hlong := hb.longest c ⟨hcj, (h.agrees.tail_iff (Nat.le_of_lt hcj)).mp hcover⟩
      omega
    · obtain rfl : c = j := by omega
      rw [hc] at hne
      exact hne (hall c hj)

/-- The next element of the text does not begin the pattern. -/
theorem Scan.skip (h : Scan p t i 0) (hne : p[0]? ≠ t[i]?) (hp : 0 < p.length) :
    Scan p t (i + 1) 0 := by
  refine ⟨Nat.zero_le _, fun k hk => absurd hk (Nat.not_lt_zero k), fun s hs => ?_⟩
  have hfirst := h.first s hs
  by_contra hbefore
  obtain rfl : s = i := by omega
  exact hne (occursAt_iff.mp hs 0 hp)

/-- The whole pattern was found. -/
theorem Scan.found (h : Scan p t i p.length) :
    OccursAt p t (i - p.length) ∧ ∀ s, OccursAt p t s → i - p.length ≤ s :=
  ⟨occursAt_iff.mpr h.agrees, h.first⟩

/-- The text ends before the pattern does. -/
theorem Scan.absent (h : Scan p t t.length j) (hj : j < p.length) : ∀ s, ¬ OccursAt p t s := by
  intro s hs
  have hfirst := h.first s hs
  have hle := h.le
  have hlast := occursAt_iff.mp hs (p.length - 1) (by omega)
  rw [List.getElem?_eq_getElem (by omega), List.getElem?_eq_none (by omega)] at hlast
  cases hlast

end KernelEventsTrace
