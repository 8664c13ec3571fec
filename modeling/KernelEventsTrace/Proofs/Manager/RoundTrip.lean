import Mathlib.Data.List.TakeWhile
import Mathlib.Data.Set.Function
import KernelEventsTrace.Proofs.Manager.NativePath
import KernelEventsTrace.Proofs.Manager.TridOutput
import KernelEventsTrace.Proofs.Manager.Win32Path

/-!
# `KernelEventsTrace.Proofs.Manager.RoundTrip`: from Win32 paths to native paths and back

`Volumes` says how the system names the files of some drives. A drive has a device `\Device\name`.
A file on the device has the name that starts with the drive. The names of the system are C
strings, and a native path fits into a `UNICODE_STRING`.

`kNativePath` then only has the device of a drive, and `kWin32Path` only the drive of a device
(`Linked`). Every call keeps this, a call of `GetNativePath` that throws included.
`getWin32PathCaseSensitive_getNativePath`: the two functions are inverse to each other on these
drives, whatever was asked for before.
-/

set_option autoImplicit false

namespace KernelEventsTrace.EtwService

namespace Manager

open Memo WString

/-- `\\?\`. -/
def namespacePrefix : WString := wide "\\\\?\\"

/-- `\Device\name`. -/
def devicePath (name : WString) : WString := wide "\\Device\\" ++ name

/-- What follows a drive or its device: nothing, or a backslash and some characters. The names are
short enough. -/
structure Rest (drive name rest : WString) : Prop where
  start : rest = [] ∨ rest.head? = some backslash
  plain : 0 ∉ rest
  win32_lt : (namespacePrefix ++ drive ++ rest).length < MAX_PATH
  native_lt : (devicePath name ++ rest).length * 2 < 2 ^ 16

/-- The drives of a system, where `name d` is the name of the device of the drive `d`. -/
structure Volumes (devices : DosDevices) (files : NtFiles) (drives : Set WString)
    (name : WString → WString) : Prop where
  drive_ne : ∀ d ∈ drives, d ≠ []
  drive_plain : ∀ d ∈ drives, backslash ∉ d ∧ 0 ∉ d
  device : ∀ d ∈ drives, deviceOf devices d = some (devicePath (name d))
  name_ne : ∀ d ∈ drives, name d ≠ []
  name_plain : ∀ d ∈ drives, backslash ∉ name d
  name_inj : Set.InjOn name drives
  finalName : ∀ d ∈ drives, ∀ rest, Rest d (name d) rest →
    files.finalPathName (devicePath (name d) ++ rest) = some (namespacePrefix ++ d ++ rest)

/-- A call of one of the two functions. -/
inductive CacheCall where
  | nativePath (path : WString)
  | win32Path (path : WString)
  deriving Repr, DecidableEq

/-- The contents of `kNativePath` and `kWin32Path`. -/
structure Caches where
  native : NativePathMap
  win32 : Win32PathMap

/-- One call, on the cache that it uses. -/
def stepCaches (devices : DosDevices) (files : NtFiles) (s : Caches) : CacheCall → Caches
  | .nativePath path => { s with native := (getNativePath devices s.native path).2 }
  | .win32Path path => { s with win32 := (getWin32PathCaseSensitive files s.win32 path).2 }

/-- The maps after a sequence of calls. They are empty at first. -/
def runCaches (devices : DosDevices) (files : NtFiles) (calls : List CacheCall) : Caches :=
  calls.foldl (stepCaches devices files) ⟨fun _ => none, fun _ => none⟩

/-- A file on one of the drives, by one of its two names. -/
def OnDrives (drives : Set WString) (name : WString → WString) (path : WString) : Prop :=
  ∃ d ∈ drives, ∃ rest, Rest d (name d) rest ∧
    (path = d ++ rest ∨ path = devicePath (name d) ++ rest)

/-- The map has no other drive for the device of a drive. -/
def Linked (drives : Set WString) (name : WString → WString) : Win32PathMap → Prop :=
  Within fun device drive => ∀ d ∈ drives, device = devicePath (name d) → drive = d

/-! ### Names -/

section
variable {d name rest : WString}

/-- A native path does not start with `\\`. -/
theorem not_direct_devicePath : ¬ Direct (devicePath name ++ rest) := by
  have hnative : devicePath name ++ rest = 92 :: 68 :: (wide "evice\\" ++ name ++ rest) := rfl
  rw [hnative]
  rintro ((hnil | hhead) | hspace)
  · cases hnil
  · exact hhead rfl
  · unfold hasNamespacePrefix at hspace
    rw [decide_eq_true_eq, find_eq_some_iff, find_eq_some_iff] at hspace
    -- Both have a second backslash.
    have hsecond : ∀ c l, ¬ (92 :: 92 :: c :: 92 :: [] : WString) <+: 92 :: 68 :: l := by
      intro c l h
      have htail := (List.cons_prefix_cons.mp h).2
      exact absurd (List.cons_prefix_cons.mp htail).1 (by decide)
    exact hspace.elim (fun h => hsecond 63 _ h.2.1) fun h => hsecond 46 _ h.2.1

/-- The device ends at the first backslash behind `\Device\`. -/
theorem deviceName_devicePath (hname : backslash ∉ name)
    (hrest : rest = [] ∨ rest.head? = some backslash) :
    deviceName (devicePath name ++ rest) = devicePath name := by
  have hlen : (wide "\\Device\\").length ≤ (devicePath name).length := by
    unfold devicePath
    rw [List.length_append]
    exact Nat.le_add_right _ _
  refine upTo_findChar hlen (fun i hi => ?_) hrest
  unfold devicePath
  rw [List.getElem?_append_right hi]
  exact getElem?_ne_of_notMem hname _

/-- What is behind the name of the device. -/
theorem afterDevice_devicePath (hname : backslash ∉ name)
    (hrest : rest = [] ∨ rest.head? = some backslash) :
    afterDevice (devicePath name ++ rest) = rest := by
  unfold afterDevice
  rw [deviceName_devicePath hname hrest]
  exact List.drop_left

/-- What is in front of the first backslash. -/
theorem drivePrefix_append (hd : backslash ∉ d) (hrest : rest = [] ∨ rest.head? = some backslash) :
    drivePrefix (d ++ rest) = d :=
  driveName_append hd hrest

/-- A path that starts with a drive is returned as it is. -/
theorem direct_drive (hne : d ≠ []) (hd : backslash ∉ d) (rest : WString) :
    d ++ rest = [] ∨ (d ++ rest).head? ≠ some backslash := by
  right
  cases d with
  | nil => exact absurd rfl hne
  | cons c d =>
    intro hhead
    obtain rfl : c = backslash := by simpa using hhead
    exact hd (.head _)

end

section
variable {devices : DosDevices} {files : NtFiles} {drives : Set WString}
  {name : WString → WString} {d rest : WString}

/-- The system gives a native path back with its drive. -/
theorem winApiPath_devicePath (h : Volumes devices files drives name) (hd : d ∈ drives)
    (hrest : Rest d (name d) rest) :
    winApiPath files (devicePath (name d) ++ rest) = some (d ++ rest) := by
  have hunicode : unicodePath (devicePath (name d) ++ rest) = devicePath (name d) ++ rest := by
    unfold unicodePath
    rw [Nat.mod_eq_of_lt hrest.native_lt, Nat.mul_div_cancel _ (by decide), List.take_length]
  have hne : (namespacePrefix ++ d ++ rest).length ≠ 0 := by simp [namespacePrefix, wide]
  have hplain : 0 ∉ namespacePrefix ++ d ++ rest := by
    rw [List.append_assoc, List.mem_append, List.mem_append]
    exact not_or.mpr ⟨by decide, not_or.mpr ⟨(h.drive_plain d hd).2, hrest.plain⟩⟩
  have hcut : (namespacePrefix ++ d ++ rest).takeWhile (fun c => c ≠ 0) =
      namespacePrefix ++ d ++ rest := by
    rw [List.takeWhile_eq_self_iff]
    intro c hc
    simpa using ne_of_mem_of_not_mem hc hplain
  have hspace : hasNamespacePrefix (namespacePrefix ++ d ++ rest) = true := by
    rw [List.append_assoc]
    exact decide_eq_true (.inl (find_zero (List.prefix_append namespacePrefix _)))
  unfold winApiPath
  rw [hunicode, h.finalName d hd rest hrest]
  simp only [if_pos (And.intro hne hrest.win32_lt), hcut, hspace, if_true]
  rw [List.append_assoc]
  rfl

/-- The answer for a native path is the path on the drive, from the map or from the system. -/
theorem getWin32PathCaseSensitive_devicePath (h : Volumes devices files drives name)
    {m : Win32PathMap} (hm : Linked drives name m) (hd : d ∈ drives)
    (hrest : Rest d (name d) rest) :
    (getWin32PathCaseSensitive files m (devicePath (name d) ++ rest)).1 = d ++ rest ∧
      Linked drives name (getWin32PathCaseSensitive files m (devicePath (name d) ++ rest)).2 := by
  have hname := h.name_plain d hd
  rw [getWin32PathCaseSensitive_of_device not_direct_devicePath,
    deviceName_devicePath hname hrest.start, afterDevice_devicePath hname hrest.start]
  cases hdrive : m (devicePath (name d)) with
  | some drive =>
    obtain rfl : drive = d := hm _ _ hdrive d hd rfl
    exact ⟨rfl, hm⟩
  | none =>
    have hsystem := winApiPath_devicePath h hd hrest
    rw [hsystem]
    constructor
    · show (winApiPath files _).getD [] = _
      rw [hsystem]
      rfl
    · refine Within.insert hm fun d' hd' heq => ?_
      have hsame : d = d' := h.name_inj hd hd' (List.append_cancel_left heq)
      rw [drivePrefix_append (h.drive_plain d hd).1 hrest.start, hsame]

/-! ### Runs -/

/-- One call keeps both maps. -/
theorem stepCaches_linked (h : Volumes devices files drives name) {s : Caches} {call : CacheCall}
    (hcall : ∀ path, call = .win32Path path → OnDrives drives name path)
    (hnative : KnownDevices devices s.native) (hwin32 : Linked drives name s.win32) :
    KnownDevices devices (stepCaches devices files s call).native ∧
      Linked drives name (stepCaches devices files s call).win32 := by
  cases call with
  | nativePath path => exact ⟨hnative.of_call path, hwin32⟩
  | win32Path path =>
    refine ⟨hnative, ?_⟩
    obtain ⟨d, hd, rest, hrest, rfl | rfl⟩ := hcall path rfl
    · have hdirect := direct_drive (h.drive_ne d hd) (h.drive_plain d hd).1 rest
      show Linked drives name (getWin32PathCaseSensitive files s.win32 (d ++ rest)).2
      rw [getWin32PathCaseSensitive_of_direct (.inl hdirect)]
      exact hwin32
    · exact (getWin32PathCaseSensitive_devicePath h hwin32 hd hrest).2

/-- Calls on known drives keep the two caches apart by drives. -/
theorem runCaches_linked (h : Volumes devices files drives name) {calls : List CacheCall}
    (hcalls : ∀ path, .win32Path path ∈ calls → OnDrives drives name path) :
    KnownDevices devices (runCaches devices files calls).native ∧
      Linked drives name (runCaches devices files calls).win32 := by
  unfold runCaches
  induction calls using List.reverseRecOn with
  | nil => exact ⟨within_empty, within_empty⟩
  | append_singleton calls call ih =>
    have hbefore := ih fun path hpath => hcalls path (List.mem_append_left _ hpath)
    rw [List.foldl_append]
    exact stepCaches_linked h
      (fun path hpath => hcalls path (List.mem_append_right _ (by simp [hpath])))
      hbefore.1 hbefore.2

/-- After any calls for files on the drives, the native path of a file leads back to the file. -/
theorem getWin32PathCaseSensitive_getNativePath (h : Volumes devices files drives name)
    {calls : List CacheCall}
    (hcalls : ∀ path, .win32Path path ∈ calls → OnDrives drives name path)
    (hd : d ∈ drives) {tail : WString} (hrest : Rest d (name d) (backslash :: tail)) :
    ∃ native,
      (getNativePath devices (runCaches devices files calls).native
        (d ++ backslash :: tail)).1 = some native ∧
      (getWin32PathCaseSensitive files (runCaches devices files calls).win32 native).1 =
        d ++ backslash :: tail := by
  obtain ⟨hknown, hlinked⟩ := runCaches_linked h hcalls
  have hmem : backslash ∈ d ++ backslash :: tail := by simp
  have hanswer : nativeAnswer devices (d ++ backslash :: tail) =
      devicePath (name d) ++ backslash :: tail := by
    unfold nativeAnswer
    rw [driveName_append (h.drive_plain d hd).1 (.inr rfl), h.device d hd]
    show _ ++ List.drop d.length (d ++ backslash :: tail) = _
    rw [List.drop_left]
  refine ⟨_, getNativePath_of_known hknown (.inl hmem), ?_⟩
  rw [hanswer]
  exact (getWin32PathCaseSensitive_devicePath h hlinked hd hrest).1

end

/-! ### A system with two drives -/

/-- The drives of the example. -/
def twoDrives : Set WString := {wide "C:", wide "D:"}

/-- The names of the two devices. -/
def volumeName (drive : WString) : WString :=
  if drive = wide "C:" then wide "HarddiskVolume3" else wide "HarddiskVolume4"

/-- A device for each of them. -/
def twoVolumes : DosDevices where
  target name :=
    if name = wide "C:" ∨ name = wide "D:" then some (devicePath (volumeName name) ++ [0, 0])
    else none
  target_ne name := by split <;> simp

/-- The system replaces the device by the drive. -/
def replaceDevice (drive path : WString) : Option WString :=
  if devicePath (volumeName drive) <+: path then
    some (namespacePrefix ++ drive ++ path.drop (devicePath (volumeName drive)).length)
  else none

/-- A path opens on the drive that its device belongs to. -/
def twoVolumeFiles : NtFiles where
  finalPathName path := (replaceDevice (wide "C:") path).or (replaceDevice (wide "D:") path)

/-- The device is replaced by its drive. -/
theorem replaceDevice_append (drive rest : WString) :
    replaceDevice drive (devicePath (volumeName drive) ++ rest) =
      some (namespacePrefix ++ drive ++ rest) := by
  unfold replaceDevice
  rw [if_pos (List.prefix_append _ _), List.drop_left]

/-- The two devices have names of the same length. -/
theorem replaceDevice_other (rest : WString) :
    replaceDevice (wide "C:") (devicePath (volumeName (wide "D:")) ++ rest) = none := by
  unfold replaceDevice
  rw [if_neg]
  intro h
  have hlen : (devicePath (volumeName (wide "C:"))).length =
      (devicePath (volumeName (wide "D:"))).length := by decide
  have hsame := (List.prefix_of_prefix_length_le h (List.prefix_append _ _) hlen.le).eq_of_length
    hlen
  exact absurd hsame (by decide)

/-- The two drives are volumes. -/
theorem volumes_twoVolumes : Volumes twoVolumes twoVolumeFiles twoDrives volumeName where
  drive_ne := by rintro d (rfl | rfl) <;> decide
  drive_plain := by rintro d (rfl | rfl) <;> decide
  device := by rintro d (rfl | rfl) <;> decide
  name_ne := by rintro d (rfl | rfl) <;> decide
  name_plain := by rintro d (rfl | rfl) <;> decide
  name_inj := by rintro d (rfl | rfl) d' (rfl | rfl) <;> decide
  finalName := by
    rintro d (rfl | rfl) rest -
    · unfold twoVolumeFiles
      simp only [replaceDevice_append, Option.some_or]
    · unfold twoVolumeFiles
      simp only [replaceDevice_other, replaceDevice_append, Option.none_or]

/-- A drive alone, for which `GetNativePath` throws, and a file on the other drive. -/
def twoCalls : List CacheCall :=
  [.nativePath (wide "C:"), .win32Path (devicePath (wide "HarddiskVolume4") ++ wide "\\b")]

/-- The way of `C:\\a` and back after these calls. -/
theorem getWin32PathCaseSensitive_getNativePath_two :
    ∃ native,
      (getNativePath twoVolumes (runCaches twoVolumes twoVolumeFiles twoCalls).native
        (wide "C:" ++ backslash :: wide "\\a")).1 = some native ∧
      (getWin32PathCaseSensitive twoVolumeFiles
        (runCaches twoVolumes twoVolumeFiles twoCalls).win32 native).1 =
          wide "C:" ++ backslash :: wide "\\a" := by
  have hrest : Rest (wide "C:") (volumeName (wide "C:")) (backslash :: wide "\\a") :=
    ⟨.inr rfl, by decide, by decide, by decide⟩
  have hother : Rest (wide "D:") (volumeName (wide "D:")) (wide "\\b") :=
    ⟨.inr rfl, by decide, by decide, by decide⟩
  refine getWin32PathCaseSensitive_getNativePath volumes_twoVolumes (fun path hpath => ?_)
    (.inl rfl) hrest
  have hlast : path = devicePath (wide "HarddiskVolume4") ++ wide "\\b" := by
    simpa [twoCalls] using hpath
  exact ⟨wide "D:", .inr rfl, wide "\\b", hother, .inr hlast⟩

end Manager

end KernelEventsTrace.EtwService
