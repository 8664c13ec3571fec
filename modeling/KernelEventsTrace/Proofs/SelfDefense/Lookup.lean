import KernelEventsTrace.Driver.Function.SelfDefense

/-!
# `KernelEventsTrace.Proofs.SelfDefense.Lookup`: protected paths and protected processes

`InProtectedDirectory` is what the loop of `IsInProtectedDirectory` decides
(`isInProtectedDirectory_iff`). `IsProtectedProcess` leaves the directories and the other
entries alone, and answers from the entry or from the image path of the process.
-/

set_option autoImplicit false

namespace KernelEventsTrace.Driver.SelfDefense

open KernelEventsTrace.Driver.Std (KString WChar)

/-- The path continues one of the directories. -/
def InProtectedDirectory (dirs : List (KString WChar)) (path : KString WChar) : Prop :=
  ∃ dir rest, KString.of dir ∈ dirs ∧ path = .of (dir ++ rest)

/-- The loop of `IsInProtectedDirectory` finds such a directory. -/
theorem isInProtectedDirectory_iff {dirs : List (KString WChar)} {path : KString WChar} :
    isInProtectedDirectory dirs path = true ↔ InProtectedDirectory dirs path := by
  induction dirs with
  | nil => simp [isInProtectedDirectory, InProtectedDirectory]
  | cons dir dirs ih =>
    have hstep : InProtectedDirectory (dir :: dirs) path ↔
        dir.isPrefixOf path = true ∨ InProtectedDirectory dirs path := by
      rw [KString.isPrefixOf_iff]
      constructor
      · rintro ⟨a, rest, ha, hp⟩
        rcases List.mem_cons.mp ha with hd | ha
        · exact Or.inl ⟨a, a ++ rest, hd.symm, hp, List.prefix_append a rest⟩
        · exact Or.inr ⟨a, rest, ha, hp⟩
      · intro h
        rcases h with ⟨a, b, rfl, hp, rest, rfl⟩ | ⟨a, rest, ha, hp⟩
        · exact ⟨a, rest, List.mem_cons_self, hp⟩
        · exact ⟨a, rest, List.mem_cons_of_mem _ ha, hp⟩
    rw [hstep, ← ih, isInProtectedDirectory]
    by_cases hd : dir.isPrefixOf path = true <;> simp [hd]

/-- The loop finds no directory for a path outside of them. -/
theorem isInProtectedDirectory_eq_false_iff {dirs : List (KString WChar)} {path : KString WChar} :
    isInProtectedDirectory dirs path = false ↔ ¬ InProtectedDirectory dirs path := by
  rw [← isInProtectedDirectory_iff, Bool.not_eq_true]

/-- The path is compared with the directories. -/
instance (dirs : List (KString WChar)) (path : KString WChar) :
    Decidable (InProtectedDirectory dirs path) :=
  decidable_of_iff _ isInProtectedDirectory_iff

/-- An insertion changes no entry of another process. -/
theorem ProcessMap.insert_of_ne (m : ProcessMap) {pid q : Pid} (h : q ≠ pid)
    (info : ProcessInfo) : (m.insert pid info) q = m q := by
  unfold ProcessMap.insert
  cases m pid with
  | none => exact Function.update_of_ne h _ _
  | some it => rfl

/-- An insertion keeps the entry that there is. -/
theorem ProcessMap.insert_of_some {m : ProcessMap} {pid : Pid} {it : ProcessInfo}
    (h : m pid = some it) (info : ProcessInfo) : m.insert pid info = m := by
  unfold ProcessMap.insert
  rw [h]

/-- `Insert` for a PID without an entry. -/
theorem ProcessMap.insert_of_none {m : ProcessMap} {pid : Pid} (h : m pid = none)
    (info : ProcessInfo) : m.insert pid info = Function.update m pid (some info) := by
  unfold ProcessMap.insert
  rw [h]

/-- The entries after an insertion. -/
theorem ProcessMap.insert_eq_some_iff {m : ProcessMap} {pid q : Pid} {info it : ProcessInfo} :
    (m.insert pid info) q = some it ↔
      m q = some it ∨ (q = pid ∧ m pid = none ∧ it = info) := by
  cases hpid : m pid with
  | some old =>
    rw [insert_of_some hpid]
    simp
  | none =>
    rw [insert_of_none hpid]
    by_cases hq : q = pid
    · subst hq
      rw [Function.update_self, hpid]
      simp [eq_comm]
    · rw [Function.update_of_ne hq]
      simp [hq]

/-- The entries after an erasure. -/
theorem ProcessMap.erase_eq_some_iff {m : ProcessMap} {pid q : Pid} {it : ProcessInfo} :
    (m.erase pid) q = some it ↔ q ≠ pid ∧ m q = some it := by
  unfold ProcessMap.erase
  by_cases hq : q = pid
  · subst hq
    simp
  · rw [Function.update_of_ne hq]
    simp [hq]

section
variable {query : Pid → ImageQuery} {g : Globals} {pid : Pid}

/-- `IsProtectedProcess` leaves the directories alone. -/
@[simp] theorem isProtectedProcess_protectedDirList :
    (isProtectedProcess query g pid).2.protectedDirList = g.protectedDirList := by
  unfold isProtectedProcess
  cases g.processMap pid with
  | none => rfl
  | some it => by_cases hp : it.isProtected = false <;> simp [hp]

/-- With an entry, `IsProtectedProcess` reads it. -/
theorem isProtectedProcess_of_some {it : ProcessInfo} (h : g.processMap pid = some it) :
    isProtectedProcess query g pid =
      (it.isProtected || isInProtectedDirectory g.protectedDirList it.processPath, g) := by
  unfold isProtectedProcess
  rw [h]
  cases hp : it.isProtected <;> simp [hp]

/-- The entry that `IsProtectedProcess` makes from the image path of a process. -/
def queriedInfo (query : Pid → ImageQuery) (dirs : List (KString WChar)) (pid : Pid) :
    ProcessInfo where
  pid := pid
  processPath := (query pid).imageName.copy
  isProtected := isInProtectedDirectory dirs (query pid).imageName
  startTime := 0

/-- Without an entry, `IsProtectedProcess` looks the path up and inserts one. -/
theorem isProtectedProcess_of_none (h : g.processMap pid = none) :
    isProtectedProcess query g pid =
      (isInProtectedDirectory g.protectedDirList (query pid).imageName,
        { g with
          processMap := Function.update g.processMap pid
            (some (queriedInfo query g.protectedDirList pid)) }) := by
  unfold isProtectedProcess getProcessImageName ProcessMap.insert
  simp only [h]
  rfl

/-- What `IsProtectedProcess` does to the static variables is an insertion. -/
theorem isProtectedProcess_snd (query : Pid → ImageQuery) (g : Globals) (pid : Pid) :
    (isProtectedProcess query g pid).2 =
      { g with
        processMap := g.processMap.insert pid (queriedInfo query g.protectedDirList pid) } := by
  cases hpid : g.processMap pid with
  | some it => rw [isProtectedProcess_of_some hpid, ProcessMap.insert_of_some hpid]
  | none => rw [isProtectedProcess_of_none hpid, ProcessMap.insert_of_none hpid]

end

/-- What `PreObCallback` does to the static variables: at most two calls of
`IsProtectedProcess`. -/
theorem preObCallback_globals (query : Pid → ImageQuery) (g : Globals) (op : ObRequest) :
    (preObCallback query g op).2 = g ∨
      (preObCallback query g op).2 = (isProtectedProcess query g op.sourcePid).2 ∨
      (preObCallback query g op).2 = (isProtectedProcess query
        (isProtectedProcess query g op.sourcePid).2 op.object.targetPid).2 := by
  unfold preObCallback
  split
  · exact Or.inl rfl
  · split
    · exact Or.inl rfl
    · rcases isProtectedProcess query g op.sourcePid with ⟨source, g1⟩
      cases source with
      | true => exact Or.inr (Or.inl rfl)
      | false =>
        right
        right
        rcases hg2 : isProtectedProcess query g1 op.object.targetPid with ⟨target, g2⟩
        simp only [Bool.false_eq_true, if_false, hg2]
        cases target with
        | false => rfl
        | true =>
          simp only [Bool.not_true, Bool.false_eq_true, if_false]
          split <;> rfl

end KernelEventsTrace.Driver.SelfDefense
