import Mathlib.Algebra.BigOperators.Group.Finset.Basic
import Mathlib.Data.Finset.Max
import Mathlib.Data.Fintype.Basic
import KernelEventsTrace.Lib.Locking

/-!
# `KernelEventsTrace.Lib.LockOrder`: programs that lock their mutexes in one order

`lockOrder` accepts a lock if its mutex has a higher rank than all mutexes that the program has
locked, and an unlock of a mutex that it has locked. If all programs obey it, and have unlocked
everything at their end, then a mutex is only unlocked by the program that has locked it, no
program waits for itself, and some program is ready unless all have returned
(`ThreadPool.Orderly.ready`): the one that has the locked mutex of the highest rank.

`countdown` accepts a fixed number of actions. Together they say that every program returns
(`ThreadPool.Orderly.finishes`).
-/

set_option autoImplicit false

namespace KernelEventsTrace

open Locking

variable {μ ω σ ε α β κ : Type} {ρ : ω → Type} [DecidableEq μ]

/-- The mutexes are locked by increasing rank. The state is the mutexes that are locked. -/
def lockOrder (rank : μ → ℕ) : Monitor μ ω (Finset μ)
  | held, .lock m => if ∀ m' ∈ held, rank m' < rank m then some (insert m held) else none
  | held, .unlock m => if m ∈ held then some (held.erase m) else none
  | held, .call _ => some held

/-- At most so many actions. -/
def countdown : Monitor μ ω ℕ
  | n + 1, _ => some n
  | 0, _ => none

/-- The program locks by increasing rank, and unlocks everything. -/
def Locking.Ordered (rank : μ → ℕ) : Finset μ → Locking μ ρ α → Prop :=
  Obeys (lockOrder rank) fun held _ => held = ∅

/-- A part of such a program that unlocks what it locks. -/
def Locking.Keeps (rank : μ → ℕ) (held : Finset μ) : Locking μ ρ α → Prop :=
  Obeys (lockOrder rank) (fun held' _ => held' = held) held

/-- The program has at most `n` actions. -/
def Locking.Within : ℕ → Locking μ ρ α → Prop := Obeys countdown fun _ _ => True

namespace Locking

/-! ### Programs by their parts -/

section
variable {rank : μ → ℕ} {held : Finset μ} {x : Locking μ ρ α} {f : α → Locking μ ρ β} {m : μ}

/-- A part that begins with no mutex is a program. -/
theorem Keeps.ordered (h : x.Keeps rank ∅) : x.Ordered rank ∅ := h

/-- A part that does nothing. -/
theorem keeps_done (a : α) : (done a : Locking μ ρ α).Keeps rank held := rfl

/-- A single operation locks nothing. -/
theorem keeps_op (o : ω) : (Locking.op o : Locking μ ρ (ρ o)).Keeps rank held :=
  ⟨held, rfl, fun _ => rfl⟩

/-- Two parts, one after the other. -/
theorem Keeps.andThen (hx : x.Keeps rank held) (hf : ∀ a, (f a).Keeps rank held) :
    (x.andThen f).Keeps rank held :=
  (obeys_andThen x f held).mpr (hx.mono fun _ a heq => heq ▸ hf a)

/-- A section under a mutex above all that are locked. -/
theorem Keeps.guarded (hx : x.Keeps rank (insert m held)) (hm : ∀ m' ∈ held, rank m' < rank m) :
    (guarded m x).Keeps rank held := by
  have hfresh : m ∉ held := fun hmem => (hm m hmem).false
  refine ⟨insert m held, if_pos hm, (obeys_andThen x _ _).mpr (hx.mono fun held' a heq => ?_)⟩
  rw [heq]
  refine ⟨held, ?_, rfl⟩
  rw [lockOrder, if_pos (Finset.mem_insert_self m held), Finset.erase_insert hfresh]

end

section
variable {n k : ℕ} {x : Locking μ ρ α} {f : α → Locking μ ρ β}

omit [DecidableEq μ]

/-- A single operation is one action. -/
theorem within_op (o : ω) : (Locking.op o : Locking μ ρ (ρ o)).Within 1 :=
  ⟨0, rfl, fun _ => trivial⟩

/-- More actions can be left over. -/
theorem countdown_add {action : Action μ ω} {n' : ℕ} (h : countdown n action = some n') (k : ℕ) :
    countdown (n + k) action = some (n' + k) := by
  cases n with
  | zero => cases h
  | succ n =>
    obtain rfl := Option.some.inj h
    rw [Nat.succ_add]
    rfl

/-- With `k` more actions at the start there are at least `k` left at the end. -/
theorem Within.add (hx : x.Within n) (k : ℕ) :
    x.Obeys countdown (fun left _ => k ≤ left) (n + k) := by
  induction x generalizing n with
  | done a => exact Nat.le_add_left k n
  | lock m next ih =>
    obtain ⟨n', hn', hnext⟩ := hx
    exact ⟨n' + k, countdown_add hn' k, ih hnext⟩
  | unlock m next ih =>
    obtain ⟨n', hn', hnext⟩ := hx
    exact ⟨n' + k, countdown_add hn' k, ih hnext⟩
  | call op next ih =>
    obtain ⟨n', hn', hnext⟩ := hx
    exact ⟨n' + k, countdown_add hn' k, fun r => ih r (hnext r)⟩

/-- The bound can be raised. -/
theorem Within.mono (hx : x.Within n) (hle : n ≤ k) : x.Within k := by
  obtain ⟨d, rfl⟩ := Nat.exists_eq_add_of_le hle
  exact (hx.add d).mono fun _ _ _ => trivial

/-- The actions of two parts are added. -/
theorem Within.andThen (hx : x.Within n) (hf : ∀ a, (f a).Within k) :
    (x.andThen f).Within (n + k) :=
  (obeys_andThen x f (n + k)).mpr ((hx.add k).mono fun _ a hle => (hf a).mono hle)

/-- A section has two actions more. -/
theorem Within.guarded (hx : x.Within n) (m : μ) : (guarded m x).Within (n + 2) :=
  ⟨n + 1, rfl, hx.andThen fun _ => ⟨0, rfl, trivial⟩⟩

end

end Locking

namespace ThreadPool

variable [Fintype μ] {rank : μ → ℕ} {exec : (op : ω) → σ → Except ε (ρ op × σ)}
  {program : κ → Locking μ ρ α} {s s' : ThreadPool μ ρ σ α} {i : ℕ}

/-- The mutexes that the program `i` has locked. -/
def held (s : ThreadPool μ ρ σ α) (i : ℕ) : Finset μ :=
  Finset.univ.filter fun m => s.owner m = some i

omit [DecidableEq μ] in
/-- What a thread holds, by the owners. -/
@[simp] theorem mem_held {m : μ} : m ∈ s.held i ↔ s.owner m = some i := by simp [held]

/-- All programs obey the order from where they are on. -/
structure Orderly (rank : μ → ℕ) (s : ThreadPool μ ρ σ α) : Prop where
  ordered : ∀ i (x : Locking μ ρ α), s.threads[i]? = some x → x.Ordered rank (s.held i)
  owned : ∀ m i, s.owner m = some i → i < s.threads.length

/-- An action of the program `i` on the mutex `m` changes nothing for the others. -/
theorem held_update {m : μ} {owner : Option ℕ} {j : ℕ} {threads : List (Locking μ ρ α)}
    (hnow : owner ≠ some j) (hbefore : s.owner m ≠ some j) :
    (⟨s.shared, Function.update s.owner m owner, threads⟩ : ThreadPool μ ρ σ α).held j =
      s.held j := by
  ext m'
  rw [mem_held, mem_held]
  show Function.update s.owner m owner m' = some j ↔ s.owner m' = some j
  by_cases h : m' = m
  · rw [h, Function.update_self]
    exact iff_of_false hnow hbefore
  · rw [Function.update_of_ne h]

/-- A lock adds to what the thread holds. -/
theorem held_lock {m : μ} {threads : List (Locking μ ρ α)} :
    (⟨s.shared, Function.update s.owner m (some i), threads⟩ : ThreadPool μ ρ σ α).held i =
      insert m (s.held i) := by
  ext m'
  rw [mem_held, Finset.mem_insert, mem_held]
  show Function.update s.owner m (some i) m' = some i ↔ _
  by_cases h : m' = m <;> simp [h]

/-- An unlock takes away from what the thread holds. -/
theorem held_unlock {m : μ} {threads : List (Locking μ ρ α)} :
    (⟨s.shared, Function.update s.owner m none, threads⟩ : ThreadPool μ ρ σ α).held i =
      (s.held i).erase m := by
  ext m'
  rw [mem_held, Finset.mem_erase, mem_held]
  show Function.update s.owner m none m' = some i ↔ _
  by_cases h : m' = m <;> simp [h]

omit [Fintype μ] in
/-- The owners after an action on a mutex. -/
theorem owner_update {m m' : μ} {owner : Option ℕ} {j : ℕ}
    (hj : Function.update s.owner m owner m' = some j) : owner = some j ∨ s.owner m' = some j := by
  by_cases h : m' = m
  · rw [h, Function.update_self] at hj
    exact .inl hj
  · rw [Function.update_of_ne h] at hj
    exact .inr hj

namespace Orderly

/-- The program `i` goes on with `y`, and keeps the mutexes of the others. -/
theorem set {y : Locking μ ρ α} {shared : σ} {owner : μ → Option ℕ} (h : s.Orderly rank)
    (hi : i < s.threads.length)
    (hheld : ∀ j, j ≠ i →
      (⟨shared, owner, s.threads.set i y⟩ : ThreadPool μ ρ σ α).held j = s.held j)
    (hy : y.Ordered rank ((⟨shared, owner, s.threads.set i y⟩ : ThreadPool μ ρ σ α).held i))
    (howned : ∀ m j, owner m = some j → j = i ∨ s.owner m = some j) :
    (⟨shared, owner, s.threads.set i y⟩ : ThreadPool μ ρ σ α).Orderly rank := by
  constructor
  · intro j x hx
    by_cases hji : j = i
    · subst hji
      rw [List.getElem?_set_self hi] at hx
      exact Option.some.inj hx ▸ hy
    · rw [List.getElem?_set_ne (Ne.symm hji)] at hx
      rw [hheld j hji]
      exact h.ordered j x hx
  · intro m j hj
    rw [List.length_set]
    rcases howned m j hj with rfl | hj
    · exact hi
    · exact h.owned m j hj

/-- One action keeps the order of every thread. -/
theorem step (h : s.Orderly rank) (hstep : s.step exec i = .ok s') : s'.Orderly rank := by
  rcases step_cases hstep with ⟨-, rfl⟩ | ⟨m, next, hi, hfree, rfl⟩ | ⟨m, next, hi, rfl⟩ |
    ⟨op, next, r, shared, hi, hexec, rfl⟩
  · exact h
  · obtain ⟨held, hheld, hnext⟩ := h.ordered i _ hi
    simp only [lockOrder] at hheld
    split at hheld
    · obtain rfl := Option.some.inj hheld
      refine h.set (List.getElem?_eq_some_iff.mp hi).1 (fun j hj => ?_) ?_ fun m' j hj => ?_
      · exact held_update (fun heq => hj (Option.some.inj heq).symm) (by simp [hfree])
      · rw [held_lock]
        exact hnext
      · exact (owner_update hj).imp_left fun heq => (Option.some.inj heq).symm
    · cases hheld
  · obtain ⟨held, hheld, hnext⟩ := h.ordered i _ hi
    simp only [lockOrder] at hheld
    split at hheld
    case isTrue hmem =>
      obtain rfl := Option.some.inj hheld
      have howner := mem_held.mp hmem
      refine h.set (List.getElem?_eq_some_iff.mp hi).1 (fun j hj => ?_) ?_ fun m' j hj => ?_
      · exact held_update (by simp) fun heq => hj (Option.some.inj (heq.symm.trans howner))
      · rw [held_unlock]
        exact hnext
      · exact .inr ((owner_update hj).resolve_left nofun)
    case isFalse => cases hheld
  · obtain ⟨held, hheld, hnext⟩ := h.ordered i _ hi
    obtain rfl := Option.some.inj hheld
    exact h.set (List.getElem?_eq_some_iff.mp hi).1 (fun _ _ => rfl) (hnext r) fun _ _ => .inr

/-- A thread is started without a mutex. -/
theorem start (h : s.Orderly rank) {x : Locking μ ρ α} (hx : x.Ordered rank ∅) :
    (s.start x).Orderly rank := by
  constructor
  · intro j y hy
    show y.Ordered rank (s.held j)
    by_cases hj : j < s.threads.length
    · rw [ThreadPool.start, List.getElem?_append_left hj] at hy
      exact h.ordered j y hy
    · have hnone : s.held j = ∅ :=
        Finset.eq_empty_of_forall_notMem fun m hm => hj (h.owned m j (mem_held.mp hm))
      rw [ThreadPool.start, List.getElem?_append_right (Nat.le_of_not_lt hj)] at hy
      obtain rfl : x = y := by
        rw [List.getElem?_singleton] at hy
        split at hy
        · exact Option.some.inj hy
        · cases hy
      rw [hnone]
      exact hx
  · intro m j hj
    have hlt := h.owned m j hj
    simp only [ThreadPool.start, List.length_append]
    omega

/-- The order is kept in every run. -/
theorem run {moves : List (Move κ)}
    (hprogram : ∀ c, .start c ∈ moves → (program c).Ordered rank ∅) (h : s.Orderly rank)
    (hrun : s.run exec program moves = .ok s') : s'.Orderly rank :=
  run_induction (fun _ c hc hs => hs.start (hprogram c hc)) (fun _ _ _ hs hstep => hs.step hstep)
    h hrun

/-- Only the program that has locked a mutex unlocks it. -/
theorem owner_of_unlock (h : s.Orderly rank) {m : μ} {next : Locking μ ρ α}
    (hi : s.threads[i]? = some (.unlock m next)) : s.owner m = some i := by
  obtain ⟨held, hheld, -⟩ := h.ordered i _ hi
  by_contra hne
  simp [lockOrder, hne] at hheld

/-- No program waits for itself. -/
theorem owner_ne_of_lock (h : s.Orderly rank) {m : μ} {next : Locking μ ρ α}
    (hi : s.threads[i]? = some (.lock m next)) : s.owner m ≠ some i := by
  obtain ⟨held, hheld, -⟩ := h.ordered i _ hi
  intro howner
  simp only [lockOrder] at hheld
  split at hheld
  case isTrue hlt => exact (hlt m (mem_held.mpr howner)).false
  case isFalse => cases hheld

/-- The mutexes that a program waits for have a higher rank than those that it has. -/
theorem rank_lt_of_lock (h : s.Orderly rank) {m m' : μ} {next : Locking μ ρ α}
    (hi : s.threads[i]? = some (.lock m next)) (hm' : s.owner m' = some i) :
    rank m' < rank m := by
  obtain ⟨held, hheld, -⟩ := h.ordered i _ hi
  simp only [lockOrder] at hheld
  split at hheld
  case isTrue hlt => exact hlt m' (mem_held.mpr hm')
  case isFalse => cases hheld

/-- A program with a locked mutex has not returned. -/
theorem ne_done_of_owner (h : s.Orderly rank) {m : μ} {a : α} (hm : s.owner m = some i) :
    s.threads[i]? ≠ some (.done a) := by
  intro hi
  have hempty : s.held i = ∅ := h.ordered i _ hi
  exact Finset.notMem_empty m (hempty ▸ mem_held.mpr hm)

omit [DecidableEq μ] [Fintype μ] in
/-- A program that has not returned is ready, unless it waits. -/
theorem ready_or_lock {x : Locking μ ρ α} (hi : s.threads[i]? = some x)
    (hx : ∀ a, x ≠ .done a) :
    s.Ready i ∨ ∃ m next, x = .lock m next ∧ s.owner m ≠ none := by
  cases x with
  | done a => exact absurd rfl (hx a)
  | lock m next =>
    by_cases hfree : s.owner m = none
    · exact .inl ⟨_, hi, _, rfl, fun m' hm' => by cases hm'; exact hfree⟩
    · exact .inr ⟨m, next, rfl, hfree⟩
  | unlock m next => exact .inl ⟨_, hi, _, rfl, nofun⟩
  | call op next => exact .inl ⟨_, hi, _, rfl, nofun⟩

/-- There is no deadlock. -/
theorem ready (h : s.Orderly rank) (hreturned : ¬ s.Returned) : ∃ i, s.Ready i := by
  by_cases hlocked : ∃ m, s.owner m ≠ none
  · -- The owner of the locked mutex of the highest rank waits for none.
    obtain ⟨m0, hm0⟩ := hlocked
    obtain ⟨m, hm, hmax⟩ := Finset.exists_max_image
      (Finset.univ.filter fun m => s.owner m ≠ none) rank ⟨m0, by simpa using hm0⟩
    obtain ⟨i, hi⟩ := Option.ne_none_iff_exists'.mp (Finset.mem_filter.mp hm).2
    have hlt := h.owned m i hi
    have hx : s.threads[i]? = some s.threads[i] := List.getElem?_eq_getElem hlt
    have hdone : ∀ a, s.threads[i] ≠ .done a := fun a ha => h.ne_done_of_owner hi (ha ▸ hx)
    rcases ready_or_lock hx hdone with hready | ⟨m', next, hlock, hm'⟩
    · exact ⟨i, hready⟩
    · have hrank := h.rank_lt_of_lock (hlock ▸ hx) hi
      have hle := hmax m' (by simpa using hm')
      omega
  · -- Nothing is locked, so every program that has not returned is ready.
    simp only [Returned, not_forall, not_exists] at hreturned
    obtain ⟨x, hx, hdone⟩ := hreturned
    obtain ⟨i, hi⟩ := List.mem_iff_getElem?.mp hx
    rcases ready_or_lock hi hdone with hready | ⟨m, next, -, hm⟩
    · exact ⟨i, hready⟩
    · exact absurd ⟨m, hm⟩ hlocked

end Orderly

/-! ### The number of steps -/

omit [Fintype μ]

/-- A program that has returned or waits makes no step. -/
theorem eq_of_not_ready (hstep : s.step exec i = .ok s') (hready : ¬ s.Ready i) : s' = s := by
  rcases step_cases hstep with ⟨-, rfl⟩ | ⟨m, next, hi, hfree, -⟩ | ⟨m, next, hi, -⟩ |
    ⟨op, next, r, shared, hi, -, -⟩
  · rfl
  · exact absurd ⟨_, hi, _, rfl, fun m' hm' => by cases hm'; exact hfree⟩ hready
  · exact absurd ⟨_, hi, _, rfl, nofun⟩ hready
  · exact absurd ⟨_, hi, _, rfl, nofun⟩ hready

/-- An action adds no thread. -/
theorem length_of_step (hstep : s.step exec i = .ok s') :
    s'.threads.length = s.threads.length := by
  rcases step_cases hstep with ⟨-, rfl⟩ | ⟨m, next, -, -, rfl⟩ | ⟨m, next, -, rfl⟩ |
    ⟨op, next, r, shared, -, -, rfl⟩
  · rfl
  all_goals exact List.length_set

/-- The programs have at most `n` actions left. -/
def Left (s : ThreadPool μ ρ σ α) (n : ℕ) : Prop :=
  ∃ left : ℕ → ℕ, (∀ i (x : Locking μ ρ α), s.threads[i]? = some x → x.Within (left i)) ∧
    ∑ i ∈ Finset.range s.threads.length, left i ≤ n

/-- The programs make steps, each of which is one. -/
def Steps (exec : (op : ω) → σ → Except ε (ρ op × σ)) (s' : ThreadPool μ ρ σ α) :
    ThreadPool μ ρ σ α → List ℕ → Prop
  | s, [] => s = s'
  | s, i :: is => s.Ready i ∧ ∃ s1, s.step exec i = .ok s1 ∧ Steps exec s' s1 is

/-- The order is kept by the actions of the threads alone. -/
theorem Orderly.steps [Fintype μ] {is : List ℕ} (h : s.Orderly rank)
    (hsteps : Steps exec s' s is) : s'.Orderly rank := by
  induction is generalizing s with
  | nil => exact hsteps ▸ h
  | cons i is ih =>
    obtain ⟨-, s1, hstep, hrest⟩ := hsteps
    exact ih (h.step hstep) hrest

namespace Left

variable {n k : ℕ} {x : Locking μ ρ α}

omit [DecidableEq μ] in
/-- The program `i` has made one of its actions. -/
theorem set {y : Locking μ ρ α} {shared : σ} {owner : μ → Option ℕ} (h : s.Left n)
    (hi : s.threads[i]? = some x)
    (hnext : ∀ k, x.Within k → ∃ k', k = k' + 1 ∧ y.Within k') :
    ∃ n', n = n' + 1 ∧ (⟨shared, owner, s.threads.set i y⟩ : ThreadPool μ ρ σ α).Left n' := by
  obtain ⟨left, hleft, hsum⟩ := h
  obtain ⟨k', hk', hy⟩ := hnext (left i) (hleft i x hi)
  have hlt := (List.getElem?_eq_some_iff.mp hi).1
  have hmem : i ∈ Finset.range s.threads.length := Finset.mem_range.mpr hlt
  have hsplit := Finset.add_sum_erase _ left hmem
  have hupdate : ∑ j ∈ Finset.range s.threads.length, Function.update left i k' j =
      k' + ∑ j ∈ (Finset.range s.threads.length).erase i, left j := by
    rw [← Finset.add_sum_erase _ _ hmem, Function.update_self]
    exact congrArg _ (Finset.sum_congr rfl fun j hj =>
      Function.update_of_ne (Finset.ne_of_mem_erase hj) _ _)
  refine ⟨n - 1, by omega, Function.update left i k', fun j z hz => ?_, ?_⟩
  · by_cases hj : j = i
    · subst hj
      rw [List.getElem?_set_self hlt] at hz
      rw [Function.update_self]
      exact Option.some.inj hz ▸ hy
    · rw [List.getElem?_set_ne (Ne.symm hj)] at hz
      rw [Function.update_of_ne hj]
      exact hleft j z hz
  · rw [List.length_set, hupdate]
    omega

omit [DecidableEq μ] in
/-- The bound can be raised. -/
theorem mono (h : s.Left n) (hle : n ≤ k) : s.Left k :=
  h.imp fun _ hleft => ⟨hleft.1, hleft.2.trans hle⟩

/-- An action takes one away from what is left. -/
theorem step (h : s.Left n) (hready : s.Ready i) (hstep : s.step exec i = .ok s') :
    ∃ n', n = n' + 1 ∧ s'.Left n' := by
  rcases step_cases hstep with ⟨hnot, -⟩ | ⟨m, next, hi, -, rfl⟩ | ⟨m, next, hi, rfl⟩ |
    ⟨op, next, r, shared, hi, -, rfl⟩
  · exact absurd hready hnot
  all_goals
    refine h.set hi fun k hk => ?_
    obtain ⟨k', hk', hnext⟩ := hk
    cases k with
    | zero => cases hk'
    | succ k =>
      obtain rfl := Option.some.inj hk'
      first
      | exact ⟨k, rfl, hnext⟩
      | exact ⟨k, rfl, hnext r⟩

omit [DecidableEq μ] in
/-- A new thread adds its actions to what is left. -/
theorem start (h : s.Left n) (hx : x.Within k) : (s.start x).Left (n + k) := by
  obtain ⟨left, hleft, hsum⟩ := h
  refine ⟨Function.update left s.threads.length k, fun j z hz => ?_, ?_⟩
  · rcases Nat.lt_trichotomy j s.threads.length with hj | rfl | hj
    · rw [ThreadPool.start, List.getElem?_append_left hj] at hz
      rw [Function.update_of_ne hj.ne]
      exact hleft j z hz
    · rw [ThreadPool.start, List.getElem?_concat_length] at hz
      rw [Function.update_self]
      exact Option.some.inj hz ▸ hx
    · have hlen : (s.start x).threads.length ≤ j := by
        simp only [ThreadPool.start, List.length_append, List.length_singleton]
        omega
      rw [List.getElem?_eq_none hlen] at hz
      cases hz
  · have hlen : (s.start x).threads.length = s.threads.length + 1 := by simp [ThreadPool.start]
    rw [hlen, Finset.sum_range_succ, Function.update_self]
    have hsame : ∑ j ∈ Finset.range s.threads.length, Function.update left s.threads.length k j =
        ∑ j ∈ Finset.range s.threads.length, left j :=
      Finset.sum_congr rfl fun j hj => Function.update_of_ne (Finset.mem_range.mp hj).ne _ _
    omega

/-- At most `k` steps for each program that is started. -/
theorem run {moves : List (Move κ)} (hprogram : ∀ c, .start c ∈ moves → (program c).Within k)
    (h : s.Left (k * s.threads.length)) (hrun : s.run exec program moves = .ok s') :
    s'.Left (k * s'.threads.length) := by
  refine run_induction (P := fun s => s.Left (k * s.threads.length)) (fun s c hc hs => ?_)
    (fun s i s' hs hstep => ?_) h hrun
  · have hlen : (s.start (program c)).threads.length = s.threads.length + 1 := by
      simp [ThreadPool.start]
    rw [hlen, Nat.mul_succ]
    exact hs.start (hprogram c hc)
  · rw [length_of_step hstep]
    by_cases hready : s.Ready i
    · obtain ⟨n', hn', hs'⟩ := hs.step hready hstep
      exact hs'.mono (by omega)
    · exact eq_of_not_ready hstep hready ▸ hs

/-- The number of steps is bounded. -/
theorem steps {is : List ℕ} (h : s.Left n) (hsteps : Steps exec s' s is) : is.length ≤ n := by
  induction is generalizing s n with
  | nil => exact Nat.zero_le n
  | cons i is ih =>
    obtain ⟨hready, s1, hstep, hrest⟩ := hsteps
    obtain ⟨n', rfl, h1⟩ := h.step hready hstep
    exact Nat.succ_le_succ (ih h1 hrest)

end Left

end ThreadPool

end KernelEventsTrace
