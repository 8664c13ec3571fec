import KernelEventsTrace.Proofs.SelfDefense.Notices

/-!
# `KernelEventsTrace.Proofs.SelfDefense.Inheritance`: children of protected processes

The creation notification looks for the creator in `kProcessMap` only. A protected creator that
was never looked up has no entry there, so its child does not inherit the protection.

`childProtected_iff` says for which children of protected processes the protection lasts.
-/

set_option autoImplicit false

namespace KernelEventsTrace.Driver.SelfDefense

open KernelEventsTrace.Driver.Std (KString WChar)

/-- The state after the driver was loaded: `kProcessMap` is empty. -/
def Globals.loaded (dirs : List (KString WChar)) (enableProtectFile : Bool) : Globals where
  processMap := fun _ => none
  protectedDirList := dirs
  enableProtectFile := enableProtectFile

/-- `IsProtectedProcess(pid)` at every moment until the termination of the process is notified,
whatever the kernel answers. -/
def ProtectedUntilTermination (g : Globals) (pid : Pid) : Prop :=
  ∀ notices : List Notice, Notice.termination pid ∉ notices →
    ∀ query, (isProtectedProcess query (g.run notices) pid).1 = true

/-- The copy of a path in a protected directory lies there too. -/
theorem inProtectedDirectory_copy {dirs : List (KString WChar)} {path : KString WChar}
    (h : InProtectedDirectory dirs path) : InProtectedDirectory dirs path.copy := by
  obtain ⟨dir, rest, hmem, rfl⟩ := h
  exact ⟨dir, rest, hmem, rfl⟩

/-- Only the null path has a copy in a protected directory without lying there itself, and only
if the empty directory is protected. -/
theorem nil_mem_of_copy {dirs : List (KString WChar)} {path : KString WChar}
    (h : InProtectedDirectory dirs path.copy) (hpath : ¬ InProtectedDirectory dirs path) :
    KString.of [] ∈ dirs := by
  cases path with
  | of l => exact absurd h hpath
  | null =>
    obtain ⟨dir, rest, hmem, heq⟩ := h
    obtain ⟨rfl, -⟩ := List.append_eq_nil_iff.mp (KString.of.inj heq).symm
    exact hmem

/-- Under the empty directory lies every copy. -/
theorem inProtectedDirectory_of_nil {dirs : List (KString WChar)} (h : KString.of [] ∈ dirs)
    (path : KString WChar) : InProtectedDirectory dirs path.copy := by
  cases path with
  | null => exact ⟨[], [], h, rfl⟩
  | of l => exact ⟨[], l, h, rfl⟩

namespace Globals

/-- An entry with a path in a protected directory is marked, unless every path is protected. -/
structure Marked (dirs : List (KString WChar)) (g : Globals) : Prop where
  dirList : g.protectedDirList = dirs
  entry : ∀ pid it, g.processMap pid = some it → InProtectedDirectory dirs it.processPath →
    it.isProtected = true ∨ KString.of [] ∈ dirs

variable {dirs : List (KString WChar)} {g : Globals}

/-- A new entry with the copy of the path that the mark was computed from. -/
theorem Marked.insert (h : Marked dirs g) (pid : Pid) (path : KString WChar)
    (isProtected : Bool) (startTime : Time)
    (hmark : InProtectedDirectory dirs path → isProtected = true) :
    Marked dirs { g with
      processMap := g.processMap.insert pid ⟨pid, path.copy, isProtected, startTime⟩ } := by
  refine ⟨h.dirList, fun q it hit hpath => ?_⟩
  rcases ProcessMap.insert_eq_some_iff.mp hit with hold | ⟨-, -, rfl⟩
  · exact h.entry q it hold hpath
  · -- The mark is about the path, and the entry has its copy.
    by_cases hin : InProtectedDirectory dirs path
    · exact Or.inl (hmark hin)
    · exact Or.inr (nil_mem_of_copy hpath hin)

/-- A lookup marks its own entry rightly. -/
theorem Marked.of_isProtectedProcess (h : Marked dirs g) (query : Pid → ImageQuery) (pid : Pid) :
    Marked dirs (isProtectedProcess query g pid).2 := by
  obtain rfl := h.dirList
  rw [isProtectedProcess_snd]
  exact h.insert pid (query pid).imageName
    (isInProtectedDirectory g.protectedDirList (query pid).imageName) 0
    isInProtectedDirectory_iff.mpr

/-- What the creation notification puts into a new entry. -/
theorem notifyCreation_eq (query : Pid → ImageQuery) (g : Globals) (currentPid pid : Pid)
    (startTime : Time) :
    notifyCreation query g currentPid pid startTime =
      { g with
        processMap := g.processMap.insert pid
          ⟨pid, (getProcessImageName query g pid).copy,
            isInProtectedDirectory g.protectedDirList (getProcessImageName query g pid) ||
              parentProtected g currentPid, startTime⟩ } := by
  unfold notifyCreation
  cases hin : isInProtectedDirectory g.protectedDirList (getProcessImageName query g pid) <;>
    simp [hin]

/-- A notice keeps the marks. -/
theorem Marked.next (h : Marked dirs g) (notice : Notice) : Marked dirs (g.next notice) := by
  refine next_rule (P := Marked dirs) notice h
    (fun query g pid h => h.of_isProtectedProcess query pid) ?_ ?_
  · intro query currentPid pid startTime _
    rw [notifyCreation_eq]
    refine h.insert pid _ _ startTime fun hin => ?_
    rw [h.dirList, isInProtectedDirectory_iff.mpr hin, Bool.true_or]
  · intro pid _
    refine ⟨h.dirList, fun q it hit => ?_⟩
    exact h.entry q it (ProcessMap.erase_eq_some_iff.mp hit).2

/-- Every entry of a run is marked rightly. -/
theorem marked_run (dirs : List (KString WChar)) (enableProtectFile : Bool)
    (notices : List Notice) : Marked dirs ((loaded dirs enableProtectFile).run notices) := by
  refine run_rule ⟨rfl, fun pid it hit => ?_⟩ fun g notice _ h => h.next notice
  cases hit

/-- An entry stays until the termination of its process is notified. -/
theorem next_entry {pid : Pid} {it : ProcessInfo} (notice : Notice)
    (h : g.processMap pid = some it) (hne : notice ≠ .termination pid) :
    (g.next notice).processMap pid = some it := by
  refine next_rule (P := fun g => g.processMap pid = some it) notice h ?_ ?_ ?_
  · intro query g q h
    rw [isProtectedProcess_snd]
    exact ProcessMap.insert_eq_some_iff.mpr (.inl h)
  · intro query currentPid q startTime _
    exact ProcessMap.insert_eq_some_iff.mpr (.inl h)
  · intro q heq
    have hq : pid ≠ q := fun hpid => hne (hpid ▸ heq)
    exact ProcessMap.erase_eq_some_iff.mpr ⟨hq, h⟩

/-- An entry stays as long as its process is not ended. -/
theorem run_entry {pid : Pid} {it : ProcessInfo} {notices : List Notice}
    (h : g.processMap pid = some it) (hnot : Notice.termination pid ∉ notices) :
    (g.run notices).processMap pid = some it :=
  run_rule (P := fun g => g.processMap pid = some it) h fun _ notice hmem h =>
    next_entry notice h fun heq => hnot (heq ▸ hmem)

/-- A process with an entry stays protected exactly if the entry says so. -/
theorem protectedUntilTermination_of_entry {pid : Pid} {it : ProcessInfo}
    (h : g.processMap pid = some it) :
    ProtectedUntilTermination g pid ↔
      it.isProtected = true ∨ InProtectedDirectory g.protectedDirList it.processPath := by
  have hanswer : ∀ {g' : Globals} {query : Pid → ImageQuery}, g'.processMap pid = some it →
      g'.protectedDirList = g.protectedDirList →
      ((isProtectedProcess query g' pid).1 = true ↔
        it.isProtected = true ∨ InProtectedDirectory g.protectedDirList it.processPath) := by
    intro g' query hit hdirs
    rw [isProtectedProcess_of_some hit, hdirs, Bool.or_eq_true, isInProtectedDirectory_iff]
  constructor
  · intro hprot
    -- With an entry, the answer of the kernel is not asked for.
    have hnow := hprot [] (by simp) fun _ =>
      { found := false, located := none, resolved := false, opened := false, mismatch := false,
        allocated := false, queried := [] }
    exact (hanswer h rfl).mp hnow
  · intro hprot notices hnot query
    exact (hanswer (run_entry h hnot) (run_protectedDirList g notices)).mpr hprot

end Globals

/-- After any run from the loading of the driver, let a protected process create a process that
has no entry yet. The child stays protected until its termination if and only if the creator has
an entry, or the image of the child lies in a protected directory. -/
theorem childProtected_iff (dirs : List (KString WChar)) (enableProtectFile : Bool)
    (notices : List Notice) (query : Pid → ImageQuery) (creator child : Pid) (startTime : Time)
    (hcreator : (isProtectedProcess query
      ((Globals.loaded dirs enableProtectFile).run notices) creator).1 = true)
    (hchild : ((Globals.loaded dirs enableProtectFile).run notices).processMap child = none) :
    ProtectedUntilTermination (((Globals.loaded dirs enableProtectFile).run notices).next
        (.creation query creator child startTime)) child ↔
      (((Globals.loaded dirs enableProtectFile).run notices).processMap creator).isSome = true ∨
        InProtectedDirectory dirs (query child).imageName.copy := by
  have hmarked := Globals.marked_run dirs enableProtectFile notices
  generalize (Globals.loaded dirs enableProtectFile).run notices = g at hmarked hcreator hchild ⊢
  -- Without an entry, the name of the child comes from the kernel.
  have hname : getProcessImageName query g child = (query child).imageName := by
    unfold getProcessImageName
    rw [hchild]
  have hentry : (g.next (.creation query creator child startTime)).processMap child =
      some ⟨child, (query child).imageName.copy,
        isInProtectedDirectory dirs (query child).imageName || parentProtected g creator,
        startTime⟩ := by
    show (notifyCreation query g creator child startTime).processMap child = _
    rw [Globals.notifyCreation_eq, hname, hmarked.dirList]
    exact ProcessMap.insert_eq_some_iff.mpr (.inr ⟨rfl, hchild, rfl⟩)
  have hdirs : (g.next (.creation query creator child startTime)).protectedDirList = dirs :=
    hmarked.dirList
  rw [Globals.protectedUntilTermination_of_entry hentry, hdirs, Bool.or_eq_true,
    isInProtectedDirectory_iff]
  constructor
  · rintro ((hin | hparent) | hin)
    · exact Or.inr (inProtectedDirectory_copy hin)
    · left
      unfold parentProtected at hparent
      cases hit : g.processMap creator with
      | none =>
        rw [hit] at hparent
        cases hparent
      | some it => rfl
    · exact Or.inr hin
  · rintro (hsome | hin)
    · obtain ⟨it, hit⟩ := Option.isSome_iff_exists.mp hsome
      rw [isProtectedProcess_of_some hit, hmarked.dirList, Bool.or_eq_true,
        isInProtectedDirectory_iff] at hcreator
      -- The creator can be protected by its path alone. Then its entry is marked, too.
      have hmark : it.isProtected = true ∨ KString.of [] ∈ dirs := by
        rcases hcreator with hmark | hpath
        · exact Or.inl hmark
        · exact hmarked.entry creator it hit hpath
      rcases hmark with hmark | hnil
      · left
        right
        unfold parentProtected
        rw [hit]
        exact hmark
      · exact Or.inr (inProtectedDirectory_of_nil hnil _)
    · exact Or.inr hin

/-- The image of process 4 lies in the protected directory, and that of any other process does
not. -/
def fourInside (pid : Pid) : ImageQuery where
  found := true
  located := some (if pid = 4 then [69, 92, 97] else [67, 92, 98])
  resolved := true
  opened := true
  mismatch := true
  allocated := true
  queried := []

/-- Process 4 is looked up, and then creates process 8. -/
theorem childProtected_lookedUp :
    ProtectedUntilTermination (((Globals.loaded [.of [69, 92]] true).run
      [.lookup fourInside 4]).next (.creation fourInside 4 8 100#64)) 8 :=
  (childProtected_iff [.of [69, 92]] true [.lookup fourInside 4] fourInside 4 8 100#64 rfl
    rfl).mpr (Or.inl rfl)

/-- Process 4 ran before the driver was loaded. It is protected, but its child is not. -/
theorem not_childProtected_runningBefore :
    (isProtectedProcess fourInside ((Globals.loaded [.of [69, 92]] true).run []) 4).1 = true ∧
      ((Globals.loaded [.of [69, 92]] true).run []).processMap 8 = none ∧
      ¬ ProtectedUntilTermination (((Globals.loaded [.of [69, 92]] true).run []).next
        (.creation fourInside 4 8 100#64)) 8 := by
  refine ⟨rfl, rfl, fun h => ?_⟩
  have hnow := h [] (by simp) fourInside
  exact absurd hnow (by decide)

end KernelEventsTrace.Driver.SelfDefense
