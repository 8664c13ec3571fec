import KernelEventsTrace.Lib.Locking

/-!
# `KernelEventsTrace.Lib.AtomicSections`: sections that act as one step

The shared state is only written under the mutex `main`, and a section under it writes at most once
and makes no operation after that. Reads may also stand outside of a section. Then a schedule of
single operations shows what a schedule shows in which every section under `main` is one step, at
the moment of its write or of its end. There the other mutexes, and the operations whose result is
always the same, do not appear (`Sectioned.settle`).

`ThreadPool.Sim` is the simulation. A program inside of a section is matched by the section as a
whole: what is left of it does from here what the section does from here (`Matches`).
-/

set_option autoImplicit false

namespace KernelEventsTrace

open Locking

variable {μ ω σ τ ε α β κ : Type} {ρ : ω → Type}

/-- Operations on a state that a mutex guards. -/
structure Sectioned (μ : Type) {ω : Type} (ρ : ω → Type) (σ ε : Type) where
  main : μ
  exec : (op : ω) → σ → Except ε (ρ op × σ)
  writes : ω → Bool
  /-- The result of an operation that always has the same. -/
  constant : (op : ω) → Option (ρ op)
  exec_of_constant : ∀ op r s, constant op = some r → exec op s = .ok (r, s)
  eq_of_read : ∀ op s r s', writes op = false → exec op s = .ok (r, s') → s' = s

/-- Where a program is. -/
inductive SectionPhase where
  | outside
  /-- In a section, in front of its write. -/
  | inside
  | written
  deriving DecidableEq

namespace Sectioned

variable [DecidableEq μ] (S : Sectioned μ ρ σ ε)

/-- The shape of the sections. -/
def monitor : Monitor μ ω SectionPhase
  | .outside, .lock m => some (if m = S.main then .inside else .outside)
  | .outside, .unlock m => if m = S.main then none else some .outside
  | .outside, .call op => if S.writes op then none else some .outside
  | .inside, .lock m => if m = S.main then none else some .inside
  | .inside, .unlock m => some (if m = S.main then .outside else .inside)
  | .inside, .call op => some (if S.writes op then .written else .inside)
  | .written, .lock _ => none
  | .written, .unlock m => some (if m = S.main then .outside else .written)
  | .written, .call _ => none

/-- From a phase on, the sections of the program have the shape. -/
def Shaped : SectionPhase → Locking μ ρ α → Prop := Obeys S.monitor fun phase _ => phase = .outside

/-- A part that does not touch `main` and does not write. -/
def readMonitor : Monitor μ ω Unit
  | _, .lock m => if m = S.main then none else some ()
  | _, .unlock m => if m = S.main then none else some ()
  | _, .call op => if S.writes op then none else some ()

/-- The part makes reads only. -/
def Reads : Locking μ ρ α → Prop := Obeys S.readMonitor (fun _ _ => True) ()

/-- A part that does not touch `main`. The state is whether it has written. -/
def partMonitor : Monitor μ ω Bool
  | false, .lock m => if m = S.main then none else some false
  | written, .unlock m => if m = S.main then none else some written
  | false, .call op => some (S.writes op)
  | true, _ => none

/-- The part may stand in a section. -/
def Section : Locking μ ρ α → Prop := Obeys S.partMonitor (fun _ _ => True) false

/-! ### Sections as one step -/

/-- The program up to its next section, or its next operation with a result of its own. -/
def settle : Locking μ ρ α → Locking μ ρ α
  | .done a => .done a
  | .lock m next => if m = S.main then .lock m next else settle next
  | .unlock _ next => settle next
  | .call op next =>
    match S.constant op with
    | some r => settle (next r)
    | none => .call op next

/-- From inside of a section to its end. -/
def finish : Locking μ ρ α → σ → Except ε (Locking μ ρ α × σ)
  | .done a, s => .ok (.done a, s)
  | .lock _ next, s => finish next s
  | .unlock m next, s => if m = S.main then .ok (S.settle next, s) else finish next s
  | .call op next, s =>
    match S.exec op s with
    | .error e => .error e
    | .ok (r, s) => finish (next r) s

/-- One step of a settled program: a section or an operation. -/
def atomicStep : Locking μ ρ α → σ → Except ε (Locking μ ρ α × σ)
  | .done a, s => .ok (.done a, s)
  | .lock _ next, s => S.finish next s
  | .unlock _ next, s => .ok (S.settle next, s)
  | .call op next, s =>
    match S.exec op s with
    | .error e => .error e
    | .ok (r, s) => .ok (S.settle (next r), s)

variable {S}

/-- Nothing follows the end. -/
@[simp] theorem settle_done (a : α) : S.settle (.done a) = .done a := rfl

/-- A program stops in front of a section. -/
@[simp] theorem settle_lock_main (next : Locking μ ρ α) :
    S.settle (.lock S.main next) = .lock S.main next := if_pos rfl

/-- The other mutexes are passed. -/
theorem settle_lock {m : μ} (hm : m ≠ S.main) (next : Locking μ ρ α) :
    S.settle (.lock m next) = S.settle next := if_neg hm

/-- An unlock is passed. -/
@[simp] theorem settle_unlock (m : μ) (next : Locking μ ρ α) :
    S.settle (.unlock m next) = S.settle next := rfl

/-- An operation with a constant result is passed. -/
theorem settle_call_constant {op : ω} {r : ρ op} (hr : S.constant op = some r)
    (next : ρ op → Locking μ ρ α) : S.settle (.call op next) = S.settle (next r) := by
  simp only [settle, hr]

/-- A program stops in front of an operation with a result of its own. -/
theorem settle_call {op : ω} (hr : S.constant op = none) (next : ρ op → Locking μ ρ α) :
    S.settle (.call op next) = .call op next := by
  simp only [settle, hr]

/-- A single operation as one step. -/
theorem atomicStep_call (op : ω) (next : ρ op → Locking μ ρ α) (s : σ) :
    S.atomicStep (.call op next) s = (S.exec op s).map fun r => (S.settle (next r.1), r.2) := by
  rw [atomicStep]
  cases S.exec op s <;> rfl

/-- What follows after the write of a section does not read the state. -/
theorem finish_written {x : Locking μ ρ α} (h : S.Shaped .written x) :
    ∃ y, ∀ s, S.finish x s = .ok (y, s) := by
  induction x with
  | done a => cases h
  | lock m next ih =>
    obtain ⟨phase, hphase, -⟩ := h
    cases hphase
  | unlock m next ih =>
    obtain ⟨phase, hphase, hnext⟩ := h
    obtain rfl := Option.some.inj hphase
    by_cases hm : m = S.main
    · exact ⟨S.settle next, fun s => if_pos hm⟩
    · rw [if_neg hm] at hnext
      exact (ih hnext).imp fun y hy s => (if_neg hm).trans (hy s)
  | call op next ih =>
    obtain ⟨phase, hphase, -⟩ := h
    cases hphase

/-! ### The shape of a program by its parts -/

section
variable {x : Locking μ ρ α} {f : α → Locking μ ρ β} {m : μ}

/-- A part that does nothing. -/
theorem reads_done (a : α) : S.Reads (.done a) := trivial

/-- An operation that does not write. -/
theorem reads_op {o : ω} (h : S.writes o = false) : S.Reads (Locking.op o) :=
  ⟨(), by simp [readMonitor, h], fun _ => trivial⟩

/-- Two parts that read, one after the other. -/
theorem Reads.andThen (hx : S.Reads x) (hf : ∀ a, S.Reads (f a)) : S.Reads (x.andThen f) :=
  (obeys_andThen x f ()).mpr (hx.mono fun _ a _ => hf a)

/-- A part that reads under another mutex. -/
theorem Reads.guarded (hx : S.Reads x) (hm : m ≠ S.main) : S.Reads (guarded m x) :=
  ⟨(), if_neg hm, (obeys_andThen x _ ()).mpr (hx.mono fun _ _ _ => ⟨(), if_neg hm, trivial⟩)⟩

/-- What obeys the monitor of the reads obeys every monitor that accepts them in a state. -/
theorem Reads.obeys {monitor : Monitor μ ω τ} {t : τ} (hx : S.Reads x)
    (hlock : ∀ m, m ≠ S.main → monitor t (.lock m) = some t)
    (hunlock : ∀ m, m ≠ S.main → monitor t (.unlock m) = some t)
    (hcall : ∀ op, S.writes op = false → monitor t (.call op) = some t) :
    x.Obeys monitor (fun t' _ => t' = t) t := by
  induction x with
  | done a => rfl
  | lock m next ih =>
    obtain ⟨_, haccept, hnext⟩ := hx
    have hm : m ≠ S.main := fun heq => by simp [readMonitor, heq] at haccept
    exact ⟨t, hlock m hm, ih hnext⟩
  | unlock m next ih =>
    obtain ⟨_, haccept, hnext⟩ := hx
    have hm : m ≠ S.main := fun heq => by simp [readMonitor, heq] at haccept
    exact ⟨t, hunlock m hm, ih hnext⟩
  | call op next ih =>
    obtain ⟨_, haccept, hnext⟩ := hx
    have hreads : S.writes op = false := by
      by_contra hwrites
      simp [readMonitor, hwrites] at haccept
    exact ⟨t, hcall op hreads, fun r => ih r (hnext r)⟩

/-- A part that reads has not written at its end. -/
theorem Reads.part (hx : S.Reads x) :
    x.Obeys S.partMonitor (fun written _ => written = false) false :=
  hx.obeys (fun _ hm => if_neg hm) (fun _ hm => if_neg hm) fun _ h => congrArg some h

/-- A part that reads can stand outside of the sections. -/
theorem Reads.shaped (hx : S.Reads x) : S.Shaped .outside x := by
  refine hx.obeys (fun m hm => ?_) (fun m hm => ?_) fun op h => ?_
  · simp [monitor, hm]
  · simp [monitor, hm]
  · simp [monitor, h]

/-- Any single operation can stand in a section. -/
theorem section_op (o : ω) : S.Section (Locking.op o) := ⟨S.writes o, rfl, fun _ => trivial⟩

/-- A part that reads can stand in a section. -/
theorem Reads.section (hx : S.Reads x) : S.Section x := hx.part.mono fun _ _ _ => trivial

/-- A section may read before it writes. -/
theorem Reads.andThen_section (hx : S.Reads x) (hf : ∀ a, S.Section (f a)) :
    S.Section (x.andThen f) :=
  (obeys_andThen x f false).mpr (hx.part.mono fun _ a hwritten => hwritten ▸ hf a)

/-- The result of a section is changed. -/
theorem Section.andThen_done (hx : S.Section x) (g : α → β) :
    S.Section (x.andThen fun a => .done (g a)) :=
  (obeys_andThen x _ false).mpr (hx.mono fun _ _ _ => trivial)

/-- Two programs, one after the other. -/
theorem Shaped.andThen (hx : S.Shaped .outside x) (hf : ∀ a, S.Shaped .outside (f a)) :
    S.Shaped .outside (x.andThen f) := by
  refine (obeys_andThen x f SectionPhase.outside).mpr (hx.mono fun phase a hphase => ?_)
  subst hphase
  exact hf a

/-- The phase of a part of a section. -/
def phase (written : Bool) : SectionPhase := if written then .written else .inside

/-- A part of a section, and the end of the section. -/
theorem shaped_of_part {written : Bool}
    (hx : x.Obeys S.partMonitor (fun _ _ => True) written) :
    S.Shaped (phase written) (x.andThen fun a => .unlock S.main (.done a)) := by
  induction x generalizing written with
  | done a => cases written <;> exact ⟨.outside, by simp [monitor, phase], rfl⟩
  | lock m next ih =>
    obtain ⟨written', haccept, hnext⟩ := hx
    cases written with
    | true => cases haccept
    | false =>
      have hm : m ≠ S.main := fun heq => by simp [partMonitor, heq] at haccept
      obtain rfl := Option.some.inj ((if_neg hm).symm.trans haccept)
      exact ⟨.inside, if_neg hm, ih hnext⟩
  | unlock m next ih =>
    obtain ⟨written', haccept, hnext⟩ := hx
    have hm : m ≠ S.main := fun heq => by cases written <;> simp [partMonitor, heq] at haccept
    have hwritten : written' = written := by
      cases written <;> simpa [partMonitor, hm] using haccept.symm
    subst hwritten
    refine ⟨phase written', ?_, ih hnext⟩
    cases written' <;> simp [monitor, phase, hm]
  | call op next ih =>
    obtain ⟨written', haccept, hnext⟩ := hx
    cases written with
    | true => cases haccept
    | false =>
      obtain rfl := Option.some.inj haccept
      exact ⟨phase (S.writes op), rfl, fun r => ih r (hnext r)⟩

/-- A part becomes a section when it is guarded by the main mutex. -/
theorem Section.guarded (hx : S.Section x) : S.Shaped .outside (guarded S.main x) :=
  ⟨.inside, congrArg some (if_pos rfl), shaped_of_part hx⟩

/-- A section as one step is what its part does alone. -/
theorem finish_part {written : Bool} (hx : x.Obeys S.partMonitor (fun _ _ => True) written)
    (f : α → Locking μ ρ β) (s : σ) :
    S.finish (x.andThen fun a => .unlock S.main (f a)) s =
      (x.eval S.exec s).map fun r => (S.settle (f r.1), r.2) := by
  induction x generalizing written s with
  | done a => exact if_pos rfl
  | lock m next ih =>
    obtain ⟨written', -, hnext⟩ := hx
    exact ih hnext s
  | unlock m next ih =>
    obtain ⟨written', haccept, hnext⟩ := hx
    have hm : m ≠ S.main := fun heq => by cases written <;> simp [partMonitor, heq] at haccept
    exact (if_neg hm).trans (ih hnext s)
  | call op next ih =>
    obtain ⟨written', -, hnext⟩ := hx
    simp only [call_andThen, finish, eval]
    cases S.exec op s with
    | error e => rfl
    | ok r => exact ih r.1 (hnext r.1) r.2

/-- A whole section is one step, with the effect of its part alone. -/
theorem atomicStep_guarded (hx : S.Section x) (f : α → Locking μ ρ β) (s : σ) :
    S.atomicStep (S.settle ((guarded S.main x).andThen f)) s =
      (x.eval S.exec s).map fun r => (S.settle (f r.1), r.2) := by
  rw [guarded_andThen, settle_lock_main]
  exact finish_part hx f s

end

/-! ### Matching -/

variable (S)

/-- What is left of the program `i` is matched by the settled program `y`. -/
inductive Matches (owner : Option ℕ) (shared : σ) (i : ℕ) (x : Locking μ ρ α) :
    Locking μ ρ α → Prop
  | outside (howner : owner ≠ some i) (hshape : S.Shaped .outside x) :
    Matches owner shared i x (S.settle x)
  /-- The section has not happened yet. -/
  | inside (howner : owner = some i) (hshape : S.Shaped .inside x) (body : Locking μ ρ α)
    (hfinish : S.finish x shared = S.finish body shared) :
    Matches owner shared i x (.lock S.main body)
  /-- The section has happened. -/
  | written (howner : owner = some i) (hshape : S.Shaped .written x) (y : Locking μ ρ α)
    (hfinish : ∀ shared, S.finish x shared = .ok (y, shared)) : Matches owner shared i x y

namespace Matches

variable {S} {owner : μ → Option ℕ} {shared shared' : σ} {i : ℕ} {m : μ}
  {next y : Locking μ ρ α}

/-- A lock makes nothing visible. -/
theorem lock (h : S.Matches (owner S.main) shared i (.lock m next) y) (hfree : owner m = none) :
    S.Matches (Function.update owner m (some i) S.main) shared i next y := by
  cases h with
  | outside howner hshape =>
    obtain ⟨phase, hphase, hnext⟩ := hshape
    obtain rfl := Option.some.inj hphase
    by_cases hm : m = S.main
    · subst hm
      rw [settle_lock_main, Function.update_self]
      exact .inside rfl (by rwa [if_pos rfl] at hnext) next rfl
    · rw [settle_lock hm, Function.update_of_ne (Ne.symm hm)]
      exact .outside howner (by rwa [if_neg hm] at hnext)
  | inside howner hshape body hfinish =>
    obtain ⟨phase, hphase, hnext⟩ := hshape
    have hm : m ≠ S.main := by
      rintro rfl
      rw [howner] at hfree
      cases hfree
    simp only [monitor, if_neg hm] at hphase
    obtain rfl := Option.some.inj hphase
    rw [Function.update_of_ne (Ne.symm hm)]
    exact .inside howner hnext body hfinish
  | written howner hshape y hfinish =>
    obtain ⟨phase, hphase, -⟩ := hshape
    cases hphase

/-- The end of a section makes it visible, if it has not written. -/
theorem unlock (h : S.Matches (owner S.main) shared i (.unlock m next) y) :
    ∃ y', S.Matches (Function.update owner m none S.main) shared i next y' ∧
      (y' = y ∨ S.atomicStep y shared = .ok (y', shared)) := by
  cases h with
  | outside howner hshape =>
    obtain ⟨phase, hphase, hnext⟩ := hshape
    have hm : m ≠ S.main := by
      rintro rfl
      simp [monitor] at hphase
    simp only [monitor, if_neg hm] at hphase
    obtain rfl := Option.some.inj hphase
    rw [settle_unlock, Function.update_of_ne (Ne.symm hm)]
    exact ⟨_, .outside howner hnext, .inl rfl⟩
  | inside howner hshape body hfinish =>
    obtain ⟨phase, hphase, hnext⟩ := hshape
    obtain rfl := Option.some.inj hphase
    by_cases hm : m = S.main
    · subst hm
      rw [if_pos rfl] at hnext
      rw [Function.update_self]
      exact ⟨_, .outside nofun hnext, .inr (hfinish.symm.trans (if_pos rfl))⟩
    · rw [if_neg hm] at hnext
      rw [Function.update_of_ne (Ne.symm hm)]
      exact ⟨_, .inside howner hnext body ((if_neg hm).symm.trans hfinish), .inl rfl⟩
  | written howner hshape y hfinish =>
    obtain ⟨phase, hphase, hnext⟩ := hshape
    obtain rfl := Option.some.inj hphase
    by_cases hm : m = S.main
    · subst hm
      rw [if_pos rfl] at hnext
      have hy : S.settle next = y :=
        congrArg Prod.fst (Except.ok.inj ((if_pos rfl).symm.trans (hfinish shared)))
      rw [Function.update_self, ← hy]
      exact ⟨_, .outside nofun hnext, .inl rfl⟩
    · rw [if_neg hm] at hnext
      rw [Function.update_of_ne (Ne.symm hm)]
      exact ⟨y, .written howner hnext y fun s => (if_neg hm).symm.trans (hfinish s), .inl rfl⟩

variable {op : ω} {cont : ρ op → Locking μ ρ α} {r : ρ op}

/-- A write makes its section visible, and a read outside of a section is a step of its own. -/
theorem call (h : S.Matches (owner S.main) shared i (.call op cont) y)
    (hexec : S.exec op shared = .ok (r, shared')) :
    ∃ y', S.Matches (owner S.main) shared' i (cont r) y' ∧
      (y' = y ∧ shared' = shared ∨ S.atomicStep y shared = .ok (y', shared')) ∧
      (shared' = shared ∨ owner S.main = some i) := by
  cases h with
  | outside howner hshape =>
    obtain ⟨phase, hphase, hnext⟩ := hshape
    cases hwrites : S.writes op with
    | true => simp [monitor, hwrites] at hphase
    | false =>
      simp only [monitor, hwrites] at hphase
      obtain rfl := Option.some.inj hphase
      have hshared := S.eq_of_read op shared r shared' hwrites hexec
      subst hshared
      cases hconst : S.constant op with
      | some r' =>
        obtain rfl : r' = r := congrArg Prod.fst
          (Except.ok.inj ((S.exec_of_constant op r' shared' hconst).symm.trans hexec))
        rw [settle_call_constant hconst]
        exact ⟨_, .outside howner (hnext r'), .inl ⟨rfl, rfl⟩, .inl rfl⟩
      | none =>
        rw [settle_call hconst]
        exact ⟨_, .outside howner (hnext r), .inr (by simp only [atomicStep, hexec]), .inl rfl⟩
  | inside howner hshape body hfinish =>
    obtain ⟨phase, hphase, hnext⟩ := hshape
    obtain rfl := Option.some.inj hphase
    have hstep : S.finish (cont r) shared' = S.finish body shared := by
      simpa only [finish, hexec] using hfinish
    cases hwrites : S.writes op with
    | false =>
      obtain rfl := S.eq_of_read op shared r shared' hwrites hexec
      rw [hwrites] at hnext
      exact ⟨_, .inside howner (hnext r) body hstep, .inl ⟨rfl, rfl⟩, .inl rfl⟩
    | true =>
      rw [hwrites] at hnext
      obtain ⟨y', hy'⟩ := finish_written (hnext r)
      exact ⟨y', .written howner (hnext r) y' hy', .inr (hstep.symm.trans (hy' shared')),
        .inr howner⟩
  | written howner hshape y hfinish =>
    obtain ⟨phase, hphase, -⟩ := hshape
    cases hphase

/-- A fault of an operation is a fault of its section. -/
theorem call_error {e : ε} (h : S.Matches (owner S.main) shared i (.call op cont) y)
    (hexec : S.exec op shared = .error e) : S.atomicStep y shared = .error e := by
  cases h with
  | outside howner hshape =>
    cases hconst : S.constant op with
    | some r' =>
      rw [S.exec_of_constant op r' shared hconst] at hexec
      cases hexec
    | none =>
      rw [settle_call hconst]
      simp only [atomicStep, hexec]
  | inside howner hshape body hfinish =>
    have herror : S.finish (.call op cont) shared = .error e := by simp only [finish, hexec]
    exact hfinish.symm.trans herror
  | written howner hshape y hfinish =>
    obtain ⟨phase, hphase, -⟩ := hshape
    cases hphase

/-- The steps of another program. It has the mutex if it has changed the state. -/
theorem other {owner owner' : Option ℕ} {j : ℕ} {x : Locking μ ρ α}
    (h : S.Matches owner shared j x y) (hji : j ≠ i)
    (howner : owner' = some j ↔ owner = some j)
    (hshared : shared' = shared ∨ owner = some i) : S.Matches owner' shared' j x y := by
  cases h with
  | outside hne hshape => exact .outside (fun heq => hne (howner.mp heq)) hshape
  | inside heq hshape body hfinish =>
    rcases hshared with rfl | hi
    · exact .inside (howner.mpr heq) hshape body hfinish
    · exact absurd (Option.some.inj (heq.symm.trans hi)) hji
  | written heq hshape y hfinish => exact .written (howner.mpr heq) hshape y hfinish

/-- Only the program in the section ends it. -/
theorem owner_of_unlock {owner : Option ℕ}
    (h : S.Matches owner shared i (.unlock S.main next) y) : owner = some i := by
  cases h with
  | outside howner hshape =>
    obtain ⟨phase, hphase, -⟩ := hshape
    simp [monitor] at hphase
  | inside howner => exact howner
  | written howner => exact howner

end Matches

end Sectioned

open Sectioned

/-! ### Schedules of sections -/

/-- The shared state, and the settled programs. -/
structure AtomicPool (μ : Type) {ω : Type} (ρ : ω → Type) (σ α : Type) where
  shared : σ
  threads : List (Locking μ ρ α)

variable [DecidableEq μ] (S : Sectioned μ ρ σ ε)

namespace AtomicPool

/-- A step of the program `i`. -/
def step (t : AtomicPool μ ρ σ α) (i : ℕ) : Except ε (AtomicPool μ ρ σ α) :=
  match t.threads[i]? with
  | none => .ok t
  | some y =>
    match S.atomicStep y t.shared with
    | .error e => .error e
    | .ok (y', shared) => .ok ⟨shared, t.threads.set i y'⟩

/-- A program is started. -/
def start (t : AtomicPool μ ρ σ α) (x : Locking μ ρ α) : AtomicPool μ ρ σ α :=
  { t with threads := t.threads ++ [S.settle x] }

/-- One move. -/
def move (program : κ → Locking μ ρ α) (t : AtomicPool μ ρ σ α) :
    Move κ → Except ε (AtomicPool μ ρ σ α)
  | .start c => .ok (t.start S (program c))
  | .step i => t.step S i

/-- A schedule. -/
def run (program : κ → Locking μ ρ α) (t : AtomicPool μ ρ σ α) (moves : List (Move κ)) :
    Except ε (AtomicPool μ ρ σ α) :=
  moves.foldlM (move S program) t

end AtomicPool

namespace ThreadPool

/-- The sections of the pool as single steps. -/
structure Sim (s : ThreadPool μ ρ σ α) (t : AtomicPool μ ρ σ α) : Prop where
  shared : t.shared = s.shared
  length : t.threads.length = s.threads.length
  owned : ∀ i, s.owner S.main = some i → i < s.threads.length
  threads : ∀ i x, s.threads[i]? = some x →
    ∃ y, t.threads[i]? = some y ∧ S.Matches (s.owner S.main) s.shared i x y

variable {S} {s : ThreadPool μ ρ σ α} {t : AtomicPool μ ρ σ α}

namespace Sim

/-- The program `i` makes a step, and what matches it makes one or none. -/
theorem set {i : ℕ} {x x' y' : Locking μ ρ α} {shared : σ} {owner : μ → Option ℕ}
    (h : s.Sim S t) (hi : s.threads[i]? = some x)
    (hmatch : S.Matches (owner S.main) shared i x' y')
    (hother : ∀ j, j ≠ i → (owner S.main = some j ↔ s.owner S.main = some j))
    (hshared : shared = s.shared ∨ s.owner S.main = some i) :
    (⟨shared, owner, s.threads.set i x'⟩ : ThreadPool μ ρ σ α).Sim S
      ⟨shared, t.threads.set i y'⟩ := by
  have hlt := (List.getElem?_eq_some_iff.mp hi).1
  refine ⟨rfl, ?_, fun j hj => ?_, fun j z hz => ?_⟩
  · rw [List.length_set, List.length_set]
    exact h.length
  · rw [List.length_set]
    by_cases hji : j = i
    · exact hji ▸ hlt
    · exact h.owned j ((hother j hji).mp hj)
  · by_cases hj : j = i
    · subst hj
      rw [List.getElem?_set_self hlt] at hz
      refine ⟨y', List.getElem?_set_self (h.length ▸ hlt), ?_⟩
      exact Option.some.inj hz ▸ hmatch
    · rw [List.getElem?_set_ne (Ne.symm hj)] at hz
      obtain ⟨y, hy, hmatches⟩ := h.threads j z hz
      refine ⟨y, (List.getElem?_set_ne (Ne.symm hj)).trans hy, ?_⟩
      exact hmatches.other hj (hother j hj) hshared

/-- The program `i` makes a step, and what matches it makes none. -/
theorem set_same {i : ℕ} {x x' y : Locking μ ρ α} {owner : μ → Option ℕ}
    (h : s.Sim S t) (hi : s.threads[i]? = some x) (hy : t.threads[i]? = some y)
    (hmatch : S.Matches (owner S.main) s.shared i x' y)
    (hother : ∀ j, j ≠ i → (owner S.main = some j ↔ s.owner S.main = some j)) :
    (⟨s.shared, owner, s.threads.set i x'⟩ : ThreadPool μ ρ σ α).Sim S t := by
  have hset := h.set hi hmatch hother (.inl rfl)
  obtain ⟨hlt, hy⟩ := List.getElem?_eq_some_iff.mp hy
  rw [← hy, List.set_getElem_self, ← h.shared] at hset
  rw [← h.shared]
  exact hset

/-- A program is started in both pools. -/
theorem start (h : s.Sim S t) {x : Locking μ ρ α} (hx : S.Shaped .outside x) :
    (s.start x).Sim S (t.start S x) := by
  have hlen : (s.start x).threads.length = s.threads.length + 1 := by simp [ThreadPool.start]
  refine ⟨h.shared, ?_, fun i hi => ?_, fun i z hz => ?_⟩
  · simp [ThreadPool.start, AtomicPool.start, h.length]
  · rw [hlen]
    exact Nat.lt_succ_of_lt (h.owned i hi)
  · rcases Nat.lt_trichotomy i s.threads.length with hi | rfl | hi
    · rw [ThreadPool.start, List.getElem?_append_left hi] at hz
      rw [AtomicPool.start, List.getElem?_append_left (h.length ▸ hi)]
      exact h.threads i z hz
    · rw [ThreadPool.start, List.getElem?_concat_length] at hz
      rw [AtomicPool.start, ← h.length, List.getElem?_concat_length]
      obtain rfl := Option.some.inj hz
      have hfresh : s.owner S.main ≠ some t.threads.length := fun howner =>
        Nat.lt_irrefl _ (h.length ▸ h.owned _ howner)
      exact ⟨_, rfl, .outside hfresh hx⟩
    · rw [List.getElem?_eq_none (by omega)] at hz
      cases hz

/-- A program that has returned has the same result in both. -/
theorem returned {i : ℕ} {a : α} (h : s.Sim S t) (hi : s.threads[i]? = some (.done a)) :
    t.threads[i]? = some (.done a) := by
  obtain ⟨y, hy, hmatch⟩ := h.threads i _ hi
  cases hmatch with
  | outside howner hshape => exact hy
  | inside howner hshape => cases hshape
  | written howner hshape => cases hshape

/-- A fault is one of the step with the sections as well. -/
theorem step_error {i : ℕ} {e : ε} (h : s.Sim S t) (hstep : s.step S.exec i = .error e) :
    t.step S i = .error e := by
  cases hi : s.threads[i]? with
  | none => simp [ThreadPool.step, hi] at hstep
  | some x =>
    obtain ⟨y, hy, hmatch⟩ := h.threads i x hi
    cases x with
    | done a => simp [ThreadPool.step, hi] at hstep
    | lock m next =>
      by_cases hfree : s.owner m = none <;> simp [ThreadPool.step, hi, hfree] at hstep
    | unlock m next => simp [ThreadPool.step, hi] at hstep
    | call op next =>
      cases hexec : S.exec op s.shared with
      | ok r => simp [ThreadPool.step, hi, hexec] at hstep
      | error e' =>
        rw [ThreadPool.step_call_error hi hexec] at hstep
        obtain rfl := Except.error.inj hstep
        have hatomic := hmatch.call_error hexec
        rw [← h.shared] at hatomic
        simp only [AtomicPool.step, hy, hatomic]

/-- One action is a whole step of the other pool, or nothing there. -/
theorem step {i : ℕ} {s' : ThreadPool μ ρ σ α} (h : s.Sim S t) (hstep : s.step S.exec i = .ok s') :
    s'.Sim S t ∨ ∃ t', t.step S i = .ok t' ∧ s'.Sim S t' := by
  have hatomic : ∀ {y y' shared}, t.threads[i]? = some y →
      S.atomicStep y s.shared = .ok (y', shared) →
      t.step S i = .ok ⟨shared, t.threads.set i y'⟩ := by
    intro y y' shared hy hstep
    rw [← h.shared] at hstep
    simp only [AtomicPool.step, hy, hstep]
  rcases ThreadPool.step_cases hstep with ⟨-, rfl⟩ | ⟨m, next, hi, hfree, rfl⟩ |
    ⟨m, next, hi, rfl⟩ | ⟨op, next, r, shared, hi, hexec, rfl⟩
  · exact .inl h
  · obtain ⟨y, hy, hmatch⟩ := h.threads i _ hi
    refine .inl (h.set_same hi hy (hmatch.lock hfree) fun j hj => ?_)
    by_cases hm : m = S.main
    · subst hm
      rw [Function.update_self, hfree]
      exact iff_of_false (fun heq => hj (Option.some.inj heq).symm) nofun
    · rw [Function.update_of_ne (Ne.symm hm)]
  · obtain ⟨y, hy, hmatch⟩ := h.threads i _ hi
    have hother : ∀ j, j ≠ i →
        (Function.update s.owner m none S.main = some j ↔ s.owner S.main = some j) := by
      intro j hj
      by_cases hm : m = S.main
      · subst hm
        rw [Function.update_self, hmatch.owner_of_unlock]
        exact iff_of_false nofun fun heq => hj (Option.some.inj heq).symm
      · rw [Function.update_of_ne (Ne.symm hm)]
    obtain ⟨y', hmatch', rfl | hy'⟩ := hmatch.unlock
    · exact .inl (h.set_same hi hy hmatch' hother)
    · exact .inr ⟨_, hatomic hy hy', h.set hi hmatch' hother (.inl rfl)⟩
  · obtain ⟨y, hy, hmatch⟩ := h.threads i _ hi
    obtain ⟨y', hmatch', ⟨rfl, rfl⟩ | hy', hshared⟩ := hmatch.call hexec
    · exact .inl (h.set_same hi hy hmatch' fun _ _ => Iff.rfl)
    · exact .inr ⟨_, hatomic hy hy', h.set hi hmatch' (fun _ _ => Iff.rfl) hshared⟩

end Sim

/-- The outcome of a schedule of operations is matched by one of a schedule of sections. -/
def Shows (S : Sectioned μ ρ σ ε) (x : Except ε (ThreadPool μ ρ σ α))
    (y : Except ε (AtomicPool μ ρ σ α)) : Prop :=
  match x with
  | .ok s => ∃ t, y = .ok t ∧ s.Sim S t
  | .error e => y = .error e

/-- Every schedule of operations shows what a schedule of sections shows, with the same programs
started in the same order. The induction is on the schedule. -/
theorem Sim.run {program : κ → Locking μ ρ α} (hprogram : ∀ c, S.Shaped .outside (program c))
    (moves : List (Move κ)) (h : s.Sim S t) :
    ∃ moves' : List (Move κ), moves'.filterMap Move.started = moves.filterMap Move.started ∧
      Shows S (s.run S.exec program moves) (t.run S program moves') := by
  induction moves generalizing s t with
  | nil => exact ⟨[], rfl, t, rfl, h⟩
  | cons next moves ih =>
    cases next with
    | start c =>
      obtain ⟨moves', hstarted, hshows⟩ := ih (h.start (hprogram c))
      exact ⟨.start c :: moves', congrArg (List.cons c) hstarted, hshows⟩
    | step i =>
      cases hstep : s.step S.exec i with
      | error e =>
        -- Nothing runs behind the fault.
        refine ⟨.step i :: moves, rfl, ?_⟩
        simp only [ThreadPool.run, AtomicPool.run, List.foldlM_cons, ThreadPool.move,
          AtomicPool.move, hstep, h.step_error hstep]
        rfl
      | ok s' =>
        simp only [ThreadPool.run, List.foldlM_cons, ThreadPool.move, hstep]
        rcases h.step hstep with hsame | ⟨t', ht', h'⟩
        · obtain ⟨moves', hstarted, hshows⟩ := ih hsame
          exact ⟨moves', hstarted, hshows⟩
        · obtain ⟨moves', hstarted, hshows⟩ := ih h'
          refine ⟨.step i :: moves', hstarted, ?_⟩
          simp only [AtomicPool.run, List.foldlM_cons, AtomicPool.move, ht']
          exact hshows

end ThreadPool

end KernelEventsTrace
