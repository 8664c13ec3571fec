import KernelEventsTrace.Lib.FirstOccurrence
import KernelEventsTrace.Proofs.SelfDefense.Inheritance

/-!
# `KernelEventsTrace.Proofs.SelfDefense.FailedLookup`: lookups of an image path that fail

`IsProtectedProcess` looks the image path of a process up once, and keeps what it got. A lookup
that fails gives a null string. Its copy is kept as if it were the path, and every later call for
the process answers from it.

`processMap_run` says which entry a process has: that of the first call for it. So a call that
could have looked the path up is right if and only if the first call got a protected path
(`neverHidden_iff`).
-/

set_option autoImplicit false

namespace KernelEventsTrace.Driver.SelfDefense

open KernelEventsTrace.Driver.Std (KString WChar)
open FirstOccurrence

/-- A call of `IsProtectedProcess`, with the answers of the kernel at its moment. -/
structure Lookup where
  query : Pid → ImageQuery
  pid : Pid

/-- A lookup as a notice. -/
def Lookup.notice (call : Lookup) : Notice := .lookup call.query call.pid

/-- The path that a lookup of the process gives now. -/
def Lookup.path (call : Lookup) : KString WChar := (call.query call.pid).imageName

/-- The static variables after a sequence of calls. -/
def runLookups (dirs : List (KString WChar)) (enableProtectFile : Bool) (calls : List Lookup) :
    Globals :=
  (Globals.loaded dirs enableProtectFile).run (calls.map Lookup.notice)

/-- The answer of a call after some other ones. -/
def Lookup.answer (dirs : List (KString WChar)) (enableProtectFile : Bool) (before : List Lookup)
    (call : Lookup) : Bool :=
  (isProtectedProcess call.query (runLookups dirs enableProtectFile before) call.pid).1

section
variable (dirs : List (KString WChar)) (enableProtectFile : Bool) (image : Pid → List WChar)

/-- Every call for a process with a protected image answers yes, if it could look the image up. -/
def NeverHidden (calls : List Lookup) : Prop :=
  ∀ pre call post, calls = pre ++ call :: post →
    InProtectedDirectory dirs (.of (image call.pid)) → call.path = .of (image call.pid) →
      call.answer dirs enableProtectFile pre = true

/-- The first call for a process with a protected image gets a protected path, or no later one
could look the image up. -/
def FirstLookupsSucceed (calls : List Lookup) : Prop :=
  ∀ pre call post, calls = pre ++ call :: post → (∀ c ∈ pre, c.pid ≠ call.pid) →
    InProtectedDirectory dirs (.of (image call.pid)) →
      InProtectedDirectory dirs call.path.copy ∨
        ∀ later ∈ post, later.pid = call.pid → later.path ≠ .of (image call.pid)

end

variable {dirs : List (KString WChar)} {enableProtectFile : Bool} {image : Pid → List WChar}

/-- One more lookup. -/
theorem runLookups_snoc (calls : List Lookup) (call : Lookup) :
    runLookups dirs enableProtectFile (calls ++ [call]) =
      (isProtectedProcess call.query (runLookups dirs enableProtectFile calls) call.pid).2 := by
  unfold runLookups Globals.run
  rw [List.map_append, List.foldl_append]
  rfl

/-- The directories are kept. -/
theorem runLookups_protectedDirList (calls : List Lookup) :
    (runLookups dirs enableProtectFile calls).protectedDirList = dirs :=
  Globals.run_protectedDirList _ _

/-- The entry of a process is the one that the first call for it has made. -/
theorem processMap_runLookups (calls : List Lookup) (pid : Pid) :
    (runLookups dirs enableProtectFile calls).processMap pid =
      (first Lookup.pid calls pid).map fun call => queriedInfo call.query dirs pid := by
  induction calls using List.reverseRecOn with
  | nil => rfl
  | append_singleton calls call ih =>
    rw [runLookups_snoc, isProtectedProcess_snd, runLookups_protectedDirList, first_snoc]
    show ProcessMap.insert _ _ _ pid = _
    by_cases hpid : call.pid = pid
    · subst hpid
      rw [if_pos rfl]
      cases hfirst : first Lookup.pid calls call.pid with
      | none =>
        -- This is the first call. Whatever the lookup gave goes into the entry.
        rw [hfirst] at ih
        rw [ProcessMap.insert_of_none ih, Function.update_self]
        rfl
      | some call' =>
        rw [hfirst] at ih
        rw [ProcessMap.insert_of_some ih, ih]
        rfl
    · rw [ProcessMap.insert_of_ne _ (Ne.symm hpid), ih, if_neg hpid, Option.or_none]

/-- Without an earlier call for the process, the answer comes from the lookup. -/
theorem Lookup.answer_of_first_none {before : List Lookup} {call : Lookup}
    (h : first Lookup.pid before call.pid = none) :
    call.answer dirs enableProtectFile before = true ↔ InProtectedDirectory dirs call.path := by
  have hnone : (runLookups dirs enableProtectFile before).processMap call.pid = none := by
    rw [processMap_runLookups, h]
    rfl
  unfold Lookup.answer
  rw [isProtectedProcess_of_none hnone, runLookups_protectedDirList]
  exact isInProtectedDirectory_iff

/-- After an earlier call, the answer comes from what the first one got. -/
theorem Lookup.answer_of_first_some {before : List Lookup} {call earlier : Lookup}
    (h : first Lookup.pid before call.pid = some earlier) :
    call.answer dirs enableProtectFile before = true ↔
      InProtectedDirectory dirs earlier.path.copy := by
  have hpid : earlier.pid = call.pid := (first_spec h).2
  have hsome : (runLookups dirs enableProtectFile before).processMap call.pid =
      some (queriedInfo earlier.query dirs call.pid) := by
    rw [processMap_runLookups, h]
    rfl
  unfold Lookup.answer
  rw [isProtectedProcess_of_some hsome, runLookups_protectedDirList, Bool.or_eq_true]
  unfold queriedInfo Lookup.path
  rw [isInProtectedDirectory_iff, isInProtectedDirectory_iff, hpid]
  -- The mark was set for the path itself, and the entry has a copy of it.
  constructor
  · rintro (hmark | hpath)
    · exact inProtectedDirectory_copy hmark
    · exact hpath
  · exact Or.inr

/-- The first call for a PID that no call before has asked for. -/
theorem first_append_cons {calls post : List Lookup} {call : Lookup}
    (h : ∀ c ∈ calls, c.pid ≠ call.pid) :
    first Lookup.pid (calls ++ call :: post) call.pid = some call := by
  have hnone : calls.find? (fun c => c.pid = call.pid) = none :=
    List.find?_eq_none.mpr (by simpa using h)
  unfold first
  rw [List.find?_append, hnone, List.find?_cons_of_pos (by simp)]
  rfl

/-- No protected process is hidden by an earlier failure if and only if no first lookup fails that
a later one would have corrected. -/
theorem neverHidden_iff (dirs : List (KString WChar)) (enableProtectFile : Bool)
    (image : Pid → List WChar) (calls : List Lookup) :
    NeverHidden dirs enableProtectFile image calls ↔ FirstLookupsSucceed dirs image calls := by
  constructor
  · intro h pre call post hcalls hfresh hprotected
    by_cases hpath : InProtectedDirectory dirs call.path.copy
    · exact .inl hpath
    · right
      -- A later call that could look the path up would still answer from the first one.
      intro later hlater hpid hsucceeds
      obtain ⟨between, rest, rfl⟩ := List.append_of_mem hlater
      have hsplit : calls = (pre ++ call :: between) ++ later :: rest := by
        rw [hcalls, List.append_assoc, List.cons_append]
      have hfirst : first Lookup.pid (pre ++ call :: between) later.pid = some call := by
        rw [hpid]
        exact first_append_cons hfresh
      have hanswer := h _ later rest hsplit (hpid ▸ hprotected) (hpid ▸ hsucceeds)
      exact hpath ((Lookup.answer_of_first_some hfirst).mp hanswer)
  · intro h pre call post hcalls hprotected hsucceeds
    cases hfirst : first Lookup.pid pre call.pid with
    | none =>
      rw [Lookup.answer_of_first_none hfirst, hsucceeds]
      exact hprotected
    | some earlier =>
      rw [Lookup.answer_of_first_some hfirst]
      obtain ⟨hpid, before, between, rfl, hfresh⟩ := List.find?_eq_some_iff_append.mp hfirst
      have hpid : earlier.pid = call.pid := by simpa using hpid
      have hsplit : calls = before ++ earlier :: (between ++ call :: post) := by
        rw [hcalls, List.append_assoc, List.cons_append]
      have hkept := h before earlier _ hsplit (fun c hc => by simpa [hpid] using hfresh c hc)
        (hpid ▸ hprotected)
      rcases hkept with hpath | hnone
      · exact hpath
      · exact absurd (hpid ▸ hsucceeds) (hnone call (by simp) hpid.symm)

/-- A kernel that cannot find the process. -/
def notFound (_ : Pid) : ImageQuery where
  found := false
  located := none
  resolved := true
  opened := true
  mismatch := true
  allocated := true
  queried := []

/-- The first lookup of process 4 fails. A second one would succeed, but is not made. -/
theorem not_neverHidden_failed :
    Lookup.path ⟨fourInside, 4⟩ = .of [69, 92, 97] ∧
      InProtectedDirectory [.of [69, 92]] (.of [69, 92, 97]) ∧
      Lookup.answer [.of [69, 92]] true [⟨notFound, 4⟩] ⟨fourInside, 4⟩ = false ∧
      ¬ NeverHidden [.of [69, 92]] true (fun _ => [69, 92, 97])
        [⟨notFound, 4⟩, ⟨fourInside, 4⟩] := by
  have hanswer : Lookup.answer [.of [69, 92]] true [⟨notFound, 4⟩] ⟨fourInside, 4⟩ = false := by
    decide
  have hprotected : InProtectedDirectory [.of [69, 92]] (.of [69, 92, 97]) := by decide
  refine ⟨by decide, hprotected, hanswer, fun h => ?_⟩
  have htrue := h [⟨notFound, 4⟩] ⟨fourInside, 4⟩ [] rfl hprotected (by decide)
  rw [hanswer] at htrue
  cases htrue

end KernelEventsTrace.Driver.SelfDefense
