import KernelEventsTrace.Driver.Function.Notices
import KernelEventsTrace.Proofs.SelfDefense.Lookup

/-!
# `KernelEventsTrace.Proofs.SelfDefense.Notices`: what a callback does to the static variables

A callback calls `IsProtectedProcess` at most twice, or is a notification
(`Globals.next_rule`). `Globals.run_rule` is the invariant rule for runs.
-/

set_option autoImplicit false

namespace KernelEventsTrace.Driver.SelfDefense

open KernelEventsTrace.Driver.Std (KString WChar)

/-- `PreCreateFile` calls `IsProtectedProcess` at most once. -/
theorem preCreateFile_globals (query : Pid → ImageQuery) (g : Globals) (data : CreateRequest) :
    (preCreateFile query g data).2 = g ∨
      (preCreateFile query g data).2 = (isProtectedProcess query g data.currentPid).2 := by
  unfold preCreateFile
  split
  · exact Or.inl rfl
  · split
    · exact Or.inl rfl
    · split
      · exact Or.inl rfl
      · right
        dsimp only
        split
        · rfl
        · split <;> rfl

/-- `PreSetInformationFile` calls `IsProtectedProcess` at most once. -/
theorem preSetInformationFile_globals (query : Pid → ImageQuery) (g : Globals)
    (data : SetInformationRequest) :
    (preSetInformationFile query g data).2 = g ∨
      (preSetInformationFile query g data).2 =
        (isProtectedProcess query g data.currentPid).2 := by
  unfold preSetInformationFile
  split
  · exact Or.inl rfl
  · split
    · exact Or.inl rfl
    · split
      · exact Or.inl rfl
      · right
        dsimp only
        split
        · rfl
        · split <;> rfl

namespace Globals

/-- A property of the static variables that `IsProtectedProcess` and the notification at hand
keep. -/
theorem next_rule {P : Globals → Prop} {g : Globals} (notice : Notice) (h : P g)
    (hlookup : ∀ query g pid, P g → P (isProtectedProcess query g pid).2)
    (hcreation : ∀ query currentPid pid startTime,
      notice = .creation query currentPid pid startTime →
      P (notifyCreation query g currentPid pid startTime))
    (htermination : ∀ pid, notice = .termination pid → P (notifyTermination g pid)) :
    P (g.next notice) := by
  cases notice with
  | creation query currentPid pid startTime => exact hcreation query currentPid pid startTime rfl
  | termination pid => exact htermination pid rfl
  | lookup query pid => exact hlookup query g pid h
  | createFile query data =>
    show P (preCreateFile query g data).2
    rcases preCreateFile_globals query g data with heq | heq <;> rw [heq]
    · exact h
    · exact hlookup _ _ _ h
  | setInformationFile query data =>
    show P (preSetInformationFile query g data).2
    rcases preSetInformationFile_globals query g data with heq | heq <;> rw [heq]
    · exact h
    · exact hlookup _ _ _ h
  | createHandle query op =>
    show P (preObCallback query g op).2
    have hsource := hlookup query g op.sourcePid h
    rcases preObCallback_globals query g op with heq | heq | heq <;> rw [heq]
    · exact h
    · exact hsource
    · exact hlookup _ _ _ hsource

/-- A property that every call of the run keeps. -/
theorem run_rule {P : Globals → Prop} {notices : List Notice} {g : Globals} (h : P g)
    (hstep : ∀ g, ∀ notice ∈ notices, P g → P (g.next notice)) : P (g.run notices) := by
  induction notices generalizing g with
  | nil => exact h
  | cons notice notices ih =>
    refine ih (hstep g notice List.mem_cons_self h) fun g n hn => ?_
    exact hstep g n (List.mem_cons_of_mem _ hn)

/-- No call changes the directories. -/
theorem run_protectedDirList (g : Globals) (notices : List Notice) :
    (g.run notices).protectedDirList = g.protectedDirList := by
  let P (g' : Globals) : Prop := g'.protectedDirList = g.protectedDirList
  have hlookup : ∀ query g' pid, P g' → P (isProtectedProcess query g' pid).2 :=
    fun _ _ _ h => isProtectedProcess_protectedDirList.trans h
  exact run_rule (P := P) rfl fun g' notice _ h =>
    next_rule (P := P) notice h hlookup (fun _ _ _ _ _ => h) (fun _ _ => h)

end Globals

end KernelEventsTrace.Driver.SelfDefense
