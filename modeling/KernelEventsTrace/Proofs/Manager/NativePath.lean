import KernelEventsTrace.EtwService.Manager.NativePath
import KernelEventsTrace.Lib.Memo
import KernelEventsTrace.Proofs.Text.Split

/-!
# `KernelEventsTrace.Proofs.Manager.NativePath`: what the device cache changes

The loop of `GetNativePath` ends with the answer of `QueryDosDeviceW`, however long it is
(`deviceBuffer_eq`). So every device in `kNativePath` is the one that the system has for the drive
(`knownDevices_runNativePaths`), and `getNativePath_eq` says what the answer is.

A path without a backslash is only a drive. If the map knows the drive, its device is the answer.
If it does not, the map learns the device, and `substr` throws. `nativePathSound_iff`: this is the
only way in which the answer depends on the earlier calls.
-/

set_option autoImplicit false

namespace KernelEventsTrace.EtwService.Manager

open Memo WString

variable (devices : DosDevices)

/-- The device of a drive, if the query for it succeeds. -/
def deviceOf (drive : WString) : Option WString := (devices.target (cString drive)).map cString

/-- The answer for a path does not depend on the earlier calls, and is never an error. If the query
for the drive fails, the answer is empty and the map is left as it is. -/
structure NativePathSound (path : WString) : Prop where
  same : ∀ before before' : List WString,
    (getNativePath devices (runNativePaths devices before) path).1 =
      (getNativePath devices (runNativePaths devices before') path).1
  total : ∀ before : List WString,
    (getNativePath devices (runNativePaths devices before) path).1 ≠ none
  atomic : deviceOf devices (driveName path) = none → ∀ before : List WString,
    getNativePath devices (runNativePaths devices before) path =
      (some [], runNativePaths devices before)

variable {devices}

/-- With enough steps the loop gives what the system has to write. The induction is on the steps. -/
theorem queryLoop_eq {name chars : WString} (h : devices.target name = some chars) :
    ∀ fuel size, 0 < size → chars.length < fuel + size →
      queryLoop devices name fuel.succ size = some chars := by
  intro fuel
  induction fuel with
  | zero =>
    intro size _ hlen
    have hquery : devices.query name size = .written chars := by
      unfold DosDevices.query
      rw [h]
      exact if_pos (by omega)
    unfold queryLoop
    rw [hquery]
  | succ fuel ih =>
    intro size hsize hlen
    unfold queryLoop DosDevices.query
    rw [h]
    by_cases hfits : chars.length ≤ size
    · simp only [if_pos hfits]
    · -- The buffer is doubled, so one step less is enough.
      simp only [if_neg hfits]
      exact ih (size * 2) (by omega) (by omega)

/-- The buffer has the device, whatever was in it. -/
theorem deviceBuffer_eq (name : WString) : deviceBuffer devices name = devices.target name := by
  unfold deviceBuffer
  cases h : devices.target name with
  | none =>
    show queryLoop devices name 1 MAX_PATH = none
    unfold queryLoop DosDevices.query
    rw [h]
  | some chars => exact queryLoop_eq h chars.length MAX_PATH (by decide) (by unfold MAX_PATH; omega)

/-- The device comes from the map or from the system. -/
theorem getNativePath_eq (m : NativePathMap) (path : WString) :
    getNativePath devices m path =
      match m (driveName path), deviceOf devices (driveName path) with
      | some device, _ => (some (device ++ path.drop (driveName path).length), m)
      | none, none => (some [], m)
      | none, some device =>
        ((path.findChar backslash 0).map fun pos => device ++ path.drop pos,
          Function.update m (driveName path) (some device)) := by
  unfold getNativePath deviceOf
  simp only [deviceBuffer_eq]
  cases m (driveName path) with
  | some device => rfl
  | none =>
    cases devices.target (cString (driveName path)) with
    | none => rfl
    | some buffer => rfl

/-- The map only has devices that the system has for their drives. -/
def KnownDevices (devices : DosDevices) : NativePathMap → Prop :=
  Within fun drive device => deviceOf devices drive = some device

/-- A call keeps what is known of the devices. -/
theorem KnownDevices.of_call {m : NativePathMap} (h : KnownDevices devices m) (path : WString) :
    KnownDevices devices (getNativePath devices m path).2 := by
  rw [getNativePath_eq]
  cases m (driveName path) with
  | some device => exact h
  | none =>
    cases hdevice : deviceOf devices (driveName path) with
    | none => exact h
    -- The entry is made before `substr` can throw.
    | some device => exact Within.insert h hdevice

/-- After any calls the cached devices are right. -/
theorem knownDevices_runNativePaths (before : List WString) :
    KnownDevices devices (runNativePaths devices before) :=
  Within.foldl (f := id) within_empty fun _ path _ h => KnownDevices.of_call h path

/-! ### Paths -/

/-- Up to the first backslash there is the drive. -/
theorem driveName_append {drive rest : WString} (h : backslash ∉ drive)
    (hrest : rest = [] ∨ rest.head? = some backslash) : driveName (drive ++ rest) = drive :=
  upTo_findChar (Nat.zero_le _) (fun i _ => getElem?_ne_of_notMem h i) hrest

/-- The position of the first backslash is the length of the drive. -/
theorem findChar_driveName {path : WString} (h : backslash ∈ path) :
    path.findChar backslash 0 = some (driveName path).length := by
  obtain ⟨drive, rest, rfl, hdrive⟩ := List.eq_append_cons_of_mem h
  rw [driveName_append hdrive (.inr rfl)]
  exact findChar_append (Nat.zero_le _) fun i _ => getElem?_ne_of_notMem hdrive i

/-! ### The answer -/

/-- The answer for a path, whatever the map has. -/
def nativeAnswer (devices : DosDevices) (path : WString) : WString :=
  match deviceOf devices (driveName path) with
  | some device => device ++ path.drop (driveName path).length
  | none => []

/-- With the right devices the answer is the native path. -/
theorem getNativePath_of_known {m : NativePathMap} (h : KnownDevices devices m) {path : WString}
    (hpath : backslash ∈ path ∨ deviceOf devices (driveName path) = none) :
    (getNativePath devices m path).1 = some (nativeAnswer devices path) := by
  rw [getNativePath_eq]
  unfold nativeAnswer
  cases hm : m (driveName path) with
  | some device =>
    rw [h _ _ hm]
  | none =>
    cases hdevice : deviceOf devices (driveName path) with
    | none => rfl
    | some device =>
      have hmem : backslash ∈ path := hpath.resolve_right (by simp [hdevice])
      show Option.map _ _ = _
      rw [findChar_driveName hmem]
      rfl

/-- A failed query is not remembered, and it has not been answered before. -/
theorem getNativePath_of_failed {m : NativePathMap} (h : KnownDevices devices m) {path : WString}
    (hfailed : deviceOf devices (driveName path) = none) :
    getNativePath devices m path = (some [], m) := by
  have hm : m (driveName path) = none := by
    cases hm : m (driveName path) with
    | none => rfl
    | some device =>
      have hdevice : deviceOf devices (driveName path) = some device := h _ _ hm
      rw [hfailed] at hdevice
      cases hdevice
  rw [getNativePath_eq, hm, hfailed]

/-- The first call for a drive alone throws. -/
theorem getNativePath_of_notMem {path device : WString} (hmem : backslash ∉ path)
    (hdevice : deviceOf devices (driveName path) = some device) :
    (getNativePath devices (fun _ => none) path).1 = none := by
  rw [getNativePath_eq, hdevice]
  show Option.map _ _ = none
  rw [findChar_eq_none_iff.mpr fun i _ => getElem?_ne_of_notMem hmem i]
  rfl

/-- The answers agree, and are never an error, if and only if the path has a backslash or the query
for its drive fails. -/
theorem nativePathSound_iff (devices : DosDevices) (path : WString) :
    NativePathSound devices path ↔
      backslash ∈ path ∨ deviceOf devices (driveName path) = none := by
  constructor
  · intro h
    by_cases hmem : backslash ∈ path
    · exact .inl hmem
    · right
      cases hdevice : deviceOf devices (driveName path) with
      | none => rfl
      | some device => exact absurd (getNativePath_of_notMem hmem hdevice) (h.total [])
  · intro h
    have hanswer := fun before => getNativePath_of_known (knownDevices_runNativePaths before) h
    constructor
    · intro before before'
      rw [hanswer before, hanswer before']
    · intro before hnone
      rw [hanswer before] at hnone
      cases hnone
    · intro hfailed before
      exact getNativePath_of_failed (knownDevices_runNativePaths before) hfailed

/-- A system with one volume. -/
def oneVolume : DosDevices where
  target name :=
    if name = wide "C:" then some (wide "\\Device\\HarddiskVolume3" ++ [0, 0]) else none
  target_ne name := by split <;> simp

/-- The first call for the drive `C:` alone throws, and the second one has an answer. -/
theorem not_nativePathSound_drive :
    (getNativePath oneVolume (runNativePaths oneVolume []) (wide "C:")).1 = none ∧
      (getNativePath oneVolume (runNativePaths oneVolume [wide "C:"]) (wide "C:")).1 =
        some (wide "\\Device\\HarddiskVolume3") ∧
      ¬ NativePathSound oneVolume (wide "C:") := by
  have hfirst : (getNativePath oneVolume (runNativePaths oneVolume []) (wide "C:")).1 = none := by
    decide
  have hsecond : (getNativePath oneVolume (runNativePaths oneVolume [wide "C:"]) (wide "C:")).1 =
      some (wide "\\Device\\HarddiskVolume3") := by
    decide
  constructor
  · exact hfirst
  · exact ⟨hsecond, fun h => h.total [] hfirst⟩

end KernelEventsTrace.EtwService.Manager
