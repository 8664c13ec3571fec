import KernelEventsTrace.EtwService.Manager.Win32Path

/-!
# `KernelEventsTrace.Proofs.Manager.Win32Path`: what the drive cache changes

A path that is not cut off early has a device. If `kWin32Path` knows the device, the answer is the
drive and the rest of the path. If it does not, the answer comes from the system
(`getWin32PathCaseSensitive_of_device`). The drive is that of some file of the same device
(`Learned`), and it can be that of any file of it that the system resolves.

`sameAnswers_iff`: the answer for a path does not depend on the earlier calls if and only if the
drive of every such file, with the rest of the path, is what the system answers for the path.
-/

set_option autoImplicit false

namespace KernelEventsTrace.EtwService.Manager

variable (files : NtFiles) (locale : Locale)

/-- The path is answered without the map and without the system. -/
def Direct (path : WString) : Prop :=
  (path = [] ∨ path.head? ≠ some backslash) ∨ hasNamespacePrefix path = true

/-- What follows the device in a path. -/
def afterDevice (path : WString) : WString := path.drop (deviceName path).length

/-- The answer of the system alone. -/
def systemAnswer (path : WString) : WString := (winApiPath files path).getD []

/-- A file on the device of the path that the system gives the name `name`. -/
structure Resolves (path name : WString) : Prop where
  device : ¬ Direct path
  name : winApiPath files path = some name

/-- Every answer after a sequence of earlier calls is the same. -/
def SameAnswers (path : WString) : Prop :=
  ∀ before before' : List PathCall,
    (getWin32PathCaseSensitive files (runPaths files locale before) path).1 =
      (getWin32PathCaseSensitive files (runPaths files locale before') path).1

/-- The path has no device, or the drive of every file of its device that can be resolved leads to
the name that the system gives the path. -/
def DrivesAgree (path : WString) : Prop :=
  Direct path ∨ ∀ q name, Resolves files q name → deviceName q = deviceName path →
    drivePrefix name ++ afterDevice path = systemAnswer files path

/-- Every drive of the map is the drive of a file of its device. -/
def Learned (kWin32Path : Win32PathMap) : Prop :=
  ∀ device drive, kWin32Path device = some drive →
    ∃ q name, Resolves files q name ∧ deviceName q = device ∧ drive = drivePrefix name

variable {files} {kWin32Path : Win32PathMap} {path : WString}

/-- A path that needs no drive. -/
theorem getWin32PathCaseSensitive_of_direct (h : Direct path) :
    getWin32PathCaseSensitive files kWin32Path path =
      (if path = [] ∨ path.head? ≠ some backslash then path else path.drop 4, kWin32Path) := by
  unfold getWin32PathCaseSensitive
  by_cases hplain : path = [] ∨ path.head? ≠ some backslash
  · rw [if_pos hplain, if_pos hplain]
  · rw [if_neg hplain, if_neg hplain, if_pos (h.resolve_left hplain)]

/-- A path with a device is answered from the map, or by the system. -/
theorem getWin32PathCaseSensitive_of_device (h : ¬ Direct path) :
    getWin32PathCaseSensitive files kWin32Path path =
      match kWin32Path (deviceName path) with
      | some drive => (drive ++ afterDevice path, kWin32Path)
      | none => (systemAnswer files path, match winApiPath files path with
        | some name => Function.update kWin32Path (deviceName path) (some (drivePrefix name))
        | none => kWin32Path) := by
  have hplain : ¬ (path = [] ∨ path.head? ≠ some backslash) := fun hp => h (.inl hp)
  have hspace : ¬ hasNamespacePrefix path = true := fun hs => h (.inr hs)
  unfold getWin32PathCaseSensitive systemAnswer
  rw [if_neg hplain, if_neg hspace]
  cases kWin32Path (deviceName path) with
  | some drive => rfl
  | none =>
    cases winApiPath files path with
    | none => rfl
    | some name => rfl

/-- At the start no drive is known. -/
theorem learned_empty : Learned files fun _ => none := by
  intro device drive h
  cases h

/-- A call keeps the map learned. It adds at most the drive of the file it was asked for. -/
theorem Learned.of_call (h : Learned files kWin32Path) (path : WString) :
    Learned files (getWin32PathCaseSensitive files kWin32Path path).2 := by
  by_cases hdirect : Direct path
  · rw [getWin32PathCaseSensitive_of_direct hdirect]
    exact h
  · rw [getWin32PathCaseSensitive_of_device hdirect]
    cases kWin32Path (deviceName path) with
    | some drive => exact h
    | none =>
      cases hname : winApiPath files path with
      | none => exact h
      | some name =>
        intro device drive hdrive
        by_cases heq : device = deviceName path
        · -- The device is new. Its drive is that of this file.
          subst heq
          have hset : some (drivePrefix name) = some drive := by
            simpa using hdrive
          exact ⟨path, name, ⟨hdirect, hname⟩, rfl, (Option.some.inj hset).symm⟩
        · have hold : kWin32Path device = some drive := by
            simpa [Function.update_of_ne heq] using hdrive
          exact h device drive hold

/-- After any calls the known drives are those that were learned. -/
theorem learned_runPaths (calls : List PathCall) : Learned files (runPaths files locale calls) := by
  have hfold : ∀ m, Learned files m → Learned files (calls.foldl (stepPath files locale) m) := by
    induction calls with
    | nil => exact fun m hm => hm
    | cons call calls ih =>
      intro m hm
      refine ih _ ?_
      cases call with
      | caseSensitive path => exact hm.of_call path
      | lower path => exact hm.of_call path
  exact hfold _ learned_empty

/-- The answer for a path does not depend on the earlier calls if and only if all drives that its
device can get agree with the system. -/
theorem sameAnswers_iff (files : NtFiles) (locale : Locale) (path : WString) :
    SameAnswers files locale path ↔ DrivesAgree files path := by
  constructor
  · intro h
    by_cases hdirect : Direct path
    · exact .inl hdirect
    · right
      intro q name hq hdevice
      -- One run has asked for nothing, and the other one for the file `q`.
      have hsame := h [.caseSensitive q] []
      have hlearned : runPaths files locale [.caseSensitive q] (deviceName path) =
          some (drivePrefix name) := by
        show (getWin32PathCaseSensitive files (fun _ => none) q).2 (deviceName path) = _
        rw [getWin32PathCaseSensitive_of_device hq.device, hq.name, ← hdevice]
        show Function.update (fun _ => none) (deviceName q) _ (deviceName q) = _
        rw [Function.update_self]
      rw [getWin32PathCaseSensitive_of_device hdirect,
        getWin32PathCaseSensitive_of_device hdirect, hlearned] at hsame
      exact hsame
  · intro h before before'
    -- Every answer is the one that the system gives to a path with a device.
    have hanswer : ∀ calls, ¬ Direct path →
        (getWin32PathCaseSensitive files (runPaths files locale calls) path).1 =
          systemAnswer files path := by
      intro calls hdirect
      rw [getWin32PathCaseSensitive_of_device hdirect]
      cases hcache : runPaths files locale calls (deviceName path) with
      | none => rfl
      | some drive =>
        obtain ⟨q, name, hq, hdevice, rfl⟩ := learned_runPaths locale calls _ _ hcache
        exact h.resolve_left hdirect q name hq hdevice
    by_cases hdirect : Direct path
    · rw [getWin32PathCaseSensitive_of_direct hdirect, getWin32PathCaseSensitive_of_direct hdirect]
    · rw [hanswer before hdirect, hanswer before' hdirect]

/-- A volume with a file `a`, and a junction `j` to another volume. -/
def junctionFiles : NtFiles where
  finalPathName path :=
    if path = wide "\\Device\\V\\a" then some (wide "\\\\?\\C:\\a")
    else if path = wide "\\Device\\V\\j\\x" then some (wide "\\\\?\\D:\\x")
    else none

/-- After `a` was asked for, a file behind the junction is taken for one on the drive of `a`. -/
theorem not_sameAnswers_junction :
    (getWin32PathCaseSensitive junctionFiles (runPaths junctionFiles .asciiOnly [])
        (wide "\\Device\\V\\j\\x")).1 = wide "D:\\x" ∧
      (getWin32PathCaseSensitive junctionFiles
        (runPaths junctionFiles .asciiOnly [.caseSensitive (wide "\\Device\\V\\a")])
        (wide "\\Device\\V\\j\\x")).1 = wide "C:\\j\\x" ∧
      ¬ SameAnswers junctionFiles .asciiOnly (wide "\\Device\\V\\j\\x") := by
  have hfirst : (getWin32PathCaseSensitive junctionFiles (runPaths junctionFiles .asciiOnly [])
      (wide "\\Device\\V\\j\\x")).1 = wide "D:\\x" := by decide
  have hsecond : (getWin32PathCaseSensitive junctionFiles
      (runPaths junctionFiles .asciiOnly [.caseSensitive (wide "\\Device\\V\\a")])
      (wide "\\Device\\V\\j\\x")).1 = wide "C:\\j\\x" := by decide
  refine ⟨hfirst, hsecond, fun h => ?_⟩
  have hsame := h [] [.caseSensitive (wide "\\Device\\V\\a")]
  rw [hfirst, hsecond] at hsame
  exact absurd hsame (by decide)

end KernelEventsTrace.EtwService.Manager
