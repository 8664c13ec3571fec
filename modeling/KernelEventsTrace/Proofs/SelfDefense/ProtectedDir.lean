import KernelEventsTrace.Proofs.SelfDefense.NormalizePath
import KernelEventsTrace.Proofs.SelfDefense.Notices

/-!
# `KernelEventsTrace.Proofs.SelfDefense.ProtectedDir`: when the protected directory is not found

`GetDefaultProtectedDir` does not look at the status of `NormalizeDevicePath`, but makes a
string of whatever the output buffer holds. An empty string protects nothing. A failure after
the link was queried leaves the target of the link in the buffer, and then that is protected.

`protectsResolvedOnly_iff` says which outcomes of the system calls are handled rightly.
-/

set_option autoImplicit false

namespace KernelEventsTrace.Driver.SelfDefense

open KernelEventsTrace.Driver.Std

/-! ### Nothing is protected -/

/-- No path is protected, and no entry is marked. -/
structure Globals.Unguarded (g : Globals) : Prop where
  path : ∀ path, isInProtectedDirectory g.protectedDirList path = false
  entry : ∀ pid it, g.processMap pid = some it → it.isProtected = false

namespace Globals

variable {g : Globals}

/-- `IsProtectedProcess` protects no process. -/
theorem Unguarded.isProtectedProcess_fst (h : g.Unguarded) (query : Pid → ImageQuery)
    (pid : Pid) : (isProtectedProcess query g pid).1 = false := by
  cases hpid : g.processMap pid with
  | some it =>
    rw [isProtectedProcess_of_some hpid, h.entry pid it hpid, h.path, Bool.or_self]
  | none =>
    rw [isProtectedProcess_of_none hpid, h.path]

/-- An unmarked entry is inserted. -/
theorem Unguarded.insert (h : g.Unguarded) (pid : Pid) (info : ProcessInfo)
    (hinfo : info.isProtected = false) :
    Unguarded { g with processMap := g.processMap.insert pid info } := by
  refine ⟨h.path, fun q it hit => ?_⟩
  rcases ProcessMap.insert_eq_some_iff.mp hit with hold | ⟨-, -, rfl⟩
  · exact h.entry q it hold
  · exact hinfo

/-- A lookup protects nothing. -/
theorem Unguarded.of_isProtectedProcess (h : g.Unguarded) (query : Pid → ImageQuery)
    (pid : Pid) : (isProtectedProcess query g pid).2.Unguarded := by
  rw [isProtectedProcess_snd]
  exact h.insert pid _ (h.path _)

/-- A notice protects nothing. -/
theorem Unguarded.next (h : g.Unguarded) (notice : Notice) : (g.next notice).Unguarded := by
  refine next_rule (P := Unguarded) notice h
    (fun query g pid h => h.of_isProtectedProcess query pid) ?_ ?_
  · intro query currentPid pid startTime _
    have hparent : parentProtected g currentPid = false := by
      unfold parentProtected
      cases hit : g.processMap currentPid with
      | none => rfl
      | some it => exact h.entry currentPid it hit
    unfold notifyCreation
    simp only [h.path, if_true, hparent]
    exact h.insert pid _ rfl
  · intro pid _
    refine ⟨h.path, fun q it hit => ?_⟩
    exact h.entry q it (ProcessMap.erase_eq_some_iff.mp hit).2

/-- Without a protected directory nothing is ever protected. -/
theorem Unguarded.run (h : g.Unguarded) (notices : List Notice) : (g.run notices).Unguarded :=
  run_rule h fun _ notice _ h => h.next notice

/-- Without a protected path no request is refused or changed. -/
theorem Unguarded.not_blocked (h : g.Unguarded) (notice : Notice) : ¬ notice.Blocked g := by
  cases notice with
  | creation query currentPid pid startTime => exact id
  | termination pid => exact id
  | lookup query pid => exact id
  | createFile query data =>
    have hdirs := (h.of_isProtectedProcess query data.currentPid).path data.filePath
    have hsuccess : (preCreateFile query g data).1 = .successNoCallback := by
      unfold preCreateFile
      simp only [h.isProtectedProcess_fst, hdirs, Bool.false_eq_true, if_false, if_true]
      split
      · rfl
      · split
        · rfl
        · split <;> rfl
    exact fun hne => hne hsuccess
  | setInformationFile query data =>
    have hdirs := (h.of_isProtectedProcess query data.currentPid).path data.filePath
    have hsuccess : (preSetInformationFile query g data).1 = .successNoCallback := by
      unfold preSetInformationFile
      simp only [h.isProtectedProcess_fst, hdirs, Bool.false_eq_true, if_false, if_true]
      split
      · rfl
      · split
        · rfl
        · split <;> rfl
    exact fun hne => hne hsuccess
  | createHandle query op =>
    have htarget := (h.of_isProtectedProcess query op.sourcePid).isProtectedProcess_fst query
      op.object.targetPid
    have hsame : (preObCallback query g op).1 = op.desiredAccess := by
      unfold preObCallback
      simp only [h.isProtectedProcess_fst, htarget, Bool.false_eq_true, if_false, Bool.not_false,
        if_true]
      split
      · rfl
      · split <;> rfl
    exact fun hne => hne hsame

end Globals

/-! ### The resolution of the directory -/

namespace LinkCalls

variable (calls : LinkCalls)

/-- The symbolic link of the drive. -/
def driveLink : List WChar := wchars "\\??\\E:"

/-- The target of the link of the drive, as the query leaves it in the buffer. -/
def driveTarget : List WChar := (calls.queryLink driveLink protectedDirBuffer).2

/-- The buffer with a content. -/
def holding (chars : List WChar) : UnicodeString := { protectedDirBuffer with chars := chars }

/-- What the buffer holds after the backslash was appended to the target. -/
def appended : NtStatus × List WChar :=
  calls.append (holding calls.driveTarget) (wchars "\\")

/-- No call leaves something in the buffer when the resolution fails. -/
structure LeavesNothing : Prop where
  /-- A failed query leaves the buffer empty. -/
  query : ntSuccess (calls.openLink driveLink) = true →
    ntSuccess (calls.queryLink driveLink protectedDirBuffer).1 = false → calls.driveTarget = []
  /-- There is room for the target and a backslash. -/
  room : ntSuccess (calls.openLink driveLink) = true →
    ntSuccess (calls.queryLink driveLink protectedDirBuffer).1 = true →
    calls.driveTarget.length < 1024
  /-- A failed append leaves the buffer empty. -/
  append : ntSuccess (calls.openLink driveLink) = true →
    ntSuccess (calls.queryLink driveLink protectedDirBuffer).1 = true →
    ntSuccess calls.appended.1 = false → calls.appended.2 = []

/-- The path has the prefix `\??\`, and its device name is `E:`. -/
theorem normalizeDevicePath_protectedDir :
    calls.normalizeDevicePath protectedDir protectedDirBuffer =
      if ntSuccess (calls.openLink driveLink) = false then
        .ok (calls.openLink driveLink, protectedDirBuffer)
      else if ntSuccess (calls.queryLink driveLink protectedDirBuffer).1 = false then
        .ok ((calls.queryLink driveLink protectedDirBuffer).1,
          holding calls.driveTarget)
      else if calls.driveTarget.length ≥ 1024 then
        .ok (STATUS_BUFFER_OVERFLOW, holding calls.driveTarget)
      else if ntSuccess calls.appended.1 = false then
        .ok (calls.appended.1, holding calls.appended.2)
      else .ok (STATUS_SUCCESS, holding calls.appended.2) := by
  have hprefix : rtlPrefixUnicodeString calls.upcase (wchars "\\??\\") protectedDir = true :=
    rtlPrefixUnicodeString_append _ _ (wchars "E:\\")
  have hname : deviceNameLength (protectedDir.drop 4) = .ok 4 := rfl
  have hsize : 2 * protectedDir.length - 2 * driveLink.length +
      (UnicodeString.mk (calls.queryLink driveLink protectedDirBuffer).2
        protectedDirBuffer.maximumLength).length > protectedDirBuffer.maximumLength ↔
      calls.driveTarget.length ≥ 1024 := by
    show 2 * 7 - 2 * 6 + 2 * calls.driveTarget.length > 2 * 1024 ↔ _
    omega
  have htake : protectedDir.take (ushort (4 + 8) / 2) = driveLink := rfl
  have hdrop : protectedDir.drop driveLink.length = wchars "\\" := rfl
  have hne : ¬ 4 = 0 := by omega
  rw [normalizeDevicePath_global _ hprefix, normalizeGlobal_run hname htake, if_neg hne, hdrop]
  simp only [apply_ite Except.ok, hsize, afterCall, Bool.not_eq_true']
  rfl

/-- The status, and what the buffer holds, after the resolution of the directory. -/
theorem normalizeDevicePath_cases :
    ∃ status chars,
      calls.normalizeDevicePath protectedDir protectedDirBuffer = .ok (status, holding chars) ∧
      (ntSuccess status = true → chars = calls.driveTarget ++ wchars "\\") ∧
      ((ntSuccess status = false → chars = []) ↔ calls.LeavesNothing) := by
  rw [normalizeDevicePath_protectedDir]
  have hfail : ntSuccess STATUS_BUFFER_OVERFLOW = false := rfl
  by_cases hopen : ntSuccess (calls.openLink driveLink) = false
  · -- The buffer is still empty.
    rw [if_pos hopen]
    refine ⟨_, [], rfl, fun h => ?_, fun _ => ?_, fun _ _ => rfl⟩
    · rw [hopen] at h
      cases h
    · constructor <;> intro h <;> rw [hopen] at h <;> cases h
  rw [if_neg hopen]
  rw [Bool.not_eq_false] at hopen
  by_cases hquery : ntSuccess (calls.queryLink driveLink protectedDirBuffer).1 = false
  · -- The buffer has what the query left in it.
    rw [if_pos hquery]
    refine ⟨_, _, rfl, fun h => ?_, fun h => ⟨fun _ => h, ?_, ?_⟩, fun h => h.query hopen⟩
    · rw [hquery] at h
      cases h
    · intro _ h
      rw [hquery] at h
      cases h
    · intro _ h
      rw [hquery] at h
      cases h
  rw [if_neg hquery]
  rw [Bool.not_eq_false] at hquery
  by_cases hroom : calls.driveTarget.length ≥ 1024
  · -- The target fits into the buffer, but not the target and the backslash.
    rw [if_pos hroom]
    refine ⟨_, _, rfl, fun h => ?_, fun h => ?_, fun h => ?_⟩
    · cases h
    · rw [h hfail] at hroom
      simp at hroom
    · exact absurd (h.room hopen hquery) (Nat.not_lt.mpr hroom)
  rw [if_neg hroom]
  by_cases happend : ntSuccess calls.appended.1 = false
  · -- The buffer has what the append left in it.
    rw [if_pos happend]
    refine ⟨_, _, rfl, fun h => ?_, fun h => ⟨?_, ?_, ?_⟩, fun h => h.append hopen hquery⟩
    · rw [happend] at h
      cases h
    · intro _ h
      rw [hquery] at h
      cases h
    · exact fun _ _ => Nat.not_le.mp hroom
    · exact fun _ _ => h
  rw [if_neg happend]
  rw [Bool.not_eq_false] at happend
  refine ⟨_, _, rfl, fun _ => calls.append_success _ _ happend, fun _ => ⟨?_, ?_, ?_⟩, ?_⟩
  · intro _ h
    rw [hquery] at h
    cases h
  · exact fun _ _ => Nat.not_le.mp hroom
  · intro _ _ h
    rw [happend] at h
    cases h
  · intro _ h
    cases h

end LinkCalls

/-! ### Main result -/

/-- After `DrvRegister` only paths below the resolved directory are protected, and if the
resolution fails no path is, and nothing is ever blocked. -/
def ProtectsResolvedOnly (calls : LinkCalls) : Prop :=
  ∃ g status devicePath, drvRegister calls = .ok g ∧
    calls.normalizeDevicePath protectedDir protectedDirBuffer = .ok (status, devicePath) ∧
    (∀ path, isInProtectedDirectory g.protectedDirList path = true → ntSuccess status = true ∧
      ∃ rest, path = .of (calls.driveTarget ++ wchars "\\" ++ rest)) ∧
    (ntSuccess status = false →
      (∀ path, isInProtectedDirectory g.protectedDirList path = false) ∧
      ∀ notices notice, ¬ Notice.Blocked ((fltRegister g).run notices) notice)

/-- The directory is protected rightly if and only if no failing call leaves something in the
output buffer. -/
theorem protectsResolvedOnly_iff (calls : LinkCalls) :
    ProtectsResolvedOnly calls ↔ calls.LeavesNothing := by
  obtain ⟨status, chars, hrun, hsuccess, hnothing⟩ := calls.normalizeDevicePath_cases
  have hdrv : drvRegister calls = .ok
      { processMap := fun _ => none, protectedDirList := [(KString.of chars).assigned],
        enableProtectFile := false } := by
    unfold drvRegister getDefaultProtectedDir
    rw [hrun]
    rfl
  rw [← hnothing]
  constructor
  · rintro ⟨g, status', devicePath, hg, hrun', hpath, -⟩ hfail
    rw [hdrv] at hg
    obtain rfl := Except.ok.inj hg
    rw [hrun] at hrun'
    obtain ⟨rfl, rfl⟩ := Prod.mk.inj (Except.ok.inj hrun')
    cases hchars : chars with
    | nil => rfl
    | cons c rest =>
      -- The content of the buffer is protected as a path of its own.
      have hin : isInProtectedDirectory [(KString.of chars).assigned] (.of chars) = true := by
        rw [isInProtectedDirectory_iff, hchars]
        exact ⟨c :: rest, [], List.mem_cons_self, by rw [List.append_nil]⟩
      have hstatus := (hpath _ hin).1
      rw [hfail] at hstatus
      cases hstatus
  · intro hempty
    refine ⟨_, _, _, hdrv, hrun, fun path hin => ?_, fun hfail => ?_⟩
    · obtain ⟨dir, rest, hmem, rfl⟩ := isInProtectedDirectory_iff.mp hin
      have hdir := List.mem_singleton.mp hmem
      cases hstatus : ntSuccess status with
      | true =>
        refine ⟨rfl, rest, ?_⟩
        rw [← hsuccess hstatus]
        cases chars with
        | nil => cases hdir
        | cons c l => rw [KString.of.inj hdir]
      | false =>
        rw [hempty hstatus] at hdir
        cases hdir
    · -- The only directory is the null string, and no path starts with it.
      rw [hempty hfail]
      have hguard : Globals.Unguarded
          { processMap := fun _ => none, protectedDirList := [KString.null],
            enableProtectFile := true } := by
        refine ⟨fun path => rfl, fun pid it hit => ?_⟩
        cases hit
      refine ⟨fun path => rfl, fun notices notice => ?_⟩
      exact (hguard.run notices).not_blocked notice

/-- The link of the drive has a target that fills the buffer. -/
def longTarget : LinkCalls where
  upcase := id
  openLink _ := STATUS_SUCCESS
  queryLink _ _ := (STATUS_SUCCESS, List.replicate 1024 65)
  append destination source := (STATUS_SUCCESS, destination.chars ++ source)
  append_success _ _ _ := rfl

/-- `NormalizeDevicePath` fails, and the target of the link is protected. -/
theorem not_protectsResolvedOnly_longTarget : ¬ ProtectsResolvedOnly longTarget := by
  rintro ⟨g, status, devicePath, hg, hrun, hpath, -⟩
  have hroom : longTarget.driveTarget.length ≥ 1024 := by
    show (List.replicate 1024 (65 : WChar)).length ≥ 1024
    rw [List.length_replicate]
  have hnormalize : longTarget.normalizeDevicePath protectedDir protectedDirBuffer =
      .ok (STATUS_BUFFER_OVERFLOW, LinkCalls.holding longTarget.driveTarget) := by
    rw [LinkCalls.normalizeDevicePath_protectedDir, if_neg (by decide), if_neg (by decide),
      if_pos hroom]
  rw [hnormalize] at hrun
  obtain ⟨rfl, rfl⟩ := Prod.mk.inj (Except.ok.inj hrun)
  unfold drvRegister getDefaultProtectedDir at hg
  rw [hnormalize] at hg
  obtain rfl := Except.ok.inj hg
  have hin : InProtectedDirectory [(KString.of longTarget.driveTarget).assigned]
      (.of longTarget.driveTarget) :=
    ⟨longTarget.driveTarget, [], List.mem_cons_self, by rw [List.append_nil]⟩
  exact absurd (hpath _ (isInProtectedDirectory_iff.mpr hin)).1 (by decide)

end KernelEventsTrace.Driver.SelfDefense
