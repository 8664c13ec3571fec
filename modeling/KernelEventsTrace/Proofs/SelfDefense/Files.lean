import KernelEventsTrace.Proofs.SelfDefense.Lookup

/-!
# `KernelEventsTrace.Proofs.SelfDefense.Files`: what the file callbacks let through

An unprotected process asks from user mode for a file in a protected directory.

* `preCreateFile_readOnly_iff`: `PreCreateFile` tests the disposition, an enumeration, by one
  bit. Every odd disposition passes for `FILE_OPEN`.
* `preSetInformationFile_denied_iff`: `PreSetInformationFile` looks at the destination of a
  rename or a link only if the source lies in a protected directory.
-/

set_option autoImplicit false

namespace KernelEventsTrace.Driver.SelfDefense

open KernelEventsTrace.Driver.Std (KString WChar)

/-! ### Create requests -/

/-- The lowest bit of a word. -/
theorem and_one_eq_zero_iff {w : Nat} (x : BitVec (w + 1)) :
    x &&& 1#(w + 1) = 0#(w + 1) ↔ x.getLsbD 0 = false := by
  rw [BitVec.and_one_eq_setWidth_ofBool_getLsbD]
  cases x.getLsbD 0 <;> simp

/-- The request opens an existing file, without `FILE_DELETE_ON_CLOSE` and without the rights to
write or append data. -/
def CreateRequest.ReadOnly (data : CreateRequest) : Prop :=
  data.options >>> 24 = 1#32 ∧ data.options &&& FILE_DELETE_ON_CLOSE = 0#32 ∧
    data.desiredAccess &&& FILE_WRITE_DATA = 0#32 ∧
    data.desiredAccess &&& FILE_APPEND_DATA = 0#32

/-- The bit test of the disposition decides rightly: the disposition is even or `FILE_OPEN`, or
the request is refused for another reason. -/
def CreateRequest.BitTestSuffices (data : CreateRequest) : Prop :=
  (data.options >>> 24) &&& 1#32 = 0#32 ∨ data.options >>> 24 = 1#32 ∨
    data.options &&& FILE_DELETE_ON_CLOSE ≠ 0#32 ∨
    data.desiredAccess &&& FILE_WRITE_DATA ≠ 0#32 ∨
    data.desiredAccess &&& FILE_APPEND_DATA ≠ 0#32

/-- The access and the options are tested. -/
instance (data : CreateRequest) : Decidable data.ReadOnly :=
  inferInstanceAs (Decidable (_ ∧ _ ∧ _ ∧ _))

/-- The bits are tested. -/
instance (data : CreateRequest) : Decidable data.BitTestSuffices :=
  inferInstanceAs (Decidable (_ ∨ _ ∨ _ ∨ _ ∨ _))

/-- The create options keep the bit of `FILE_DELETE_ON_CLOSE`. -/
theorem and_deleteOnClose (options : Dword) :
    (options &&& 0x00FFFFFF#32) &&& FILE_DELETE_ON_CLOSE = options &&& FILE_DELETE_ON_CLOSE := by
  rw [BitVec.and_assoc]
  rfl

/-- The flag test of the disposition reads its lowest bit. -/
theorem and_fileOpen_eq_zero_iff (options : Dword) :
    (options >>> 24).setWidth 8 &&& FILE_OPEN = 0#8 ↔ (options >>> 24) &&& 1#32 = 0#32 := by
  show (options >>> 24).setWidth 8 &&& 1#8 = 0#8 ↔ _
  rw [and_one_eq_zero_iff, and_one_eq_zero_iff]
  simp

/-- What the last part of `PreCreateFile` lets through. -/
theorem checkCreate_eq_success_iff (desiredAccess options : Dword) :
    checkCreate desiredAccess options = .successNoCallback ↔
      options &&& FILE_DELETE_ON_CLOSE = 0#32 ∧ (options >>> 24) &&& 1#32 ≠ 0#32 ∧
        desiredAccess &&& FILE_WRITE_DATA = 0#32 ∧
        desiredAccess &&& FILE_APPEND_DATA = 0#32 := by
  have hdisp := and_fileOpen_eq_zero_iff options
  unfold checkCreate flagOn
  simp only [and_deleteOnClose, ne_eq, decide_not, Bool.not_not, Bool.or_eq_true,
    Bool.not_eq_eq_eq_not, Bool.not_true, decide_eq_false_iff_not, decide_eq_true_eq]
  split <;> simp only [reduceCtorEq, false_iff, true_iff] <;> tauto

section
variable {query : Pid → ImageQuery} {g : Globals} (data : CreateRequest)

/-- A user request of an unprotected process for a protected path is decided by its words. -/
theorem preCreateFile_eq (henable : g.enableProtectFile = true)
    (hrequestor : data.requestorMode = .userMode) (hprevious : data.previousMode = .userMode)
    (hprocess : (isProtectedProcess query g data.currentPid).1 = false)
    (hpath : InProtectedDirectory g.protectedDirList data.filePath) :
    (preCreateFile query g data).1 = checkCreate data.desiredAccess data.options := by
  unfold preCreateFile
  simp only [henable, hrequestor, hprevious, hprocess, Bool.true_eq_false, reduceCtorEq, if_false,
    Bool.false_eq_true, isProtectedProcess_protectedDirList,
    isInProtectedDirectory_iff.mpr hpath]

/-- `PreCreateFile` lets only reading requests through exactly if the bit test suffices. -/
theorem preCreateFile_readOnly_iff (henable : g.enableProtectFile = true)
    (hrequestor : data.requestorMode = .userMode) (hprevious : data.previousMode = .userMode)
    (hprocess : (isProtectedProcess query g data.currentPid).1 = false)
    (hpath : InProtectedDirectory g.protectedDirList data.filePath) :
    ((preCreateFile query g data).1 = .successNoCallback → data.ReadOnly) ↔
      data.BitTestSuffices := by
  rw [preCreateFile_eq data henable hrequestor hprevious hprocess hpath, checkCreate_eq_success_iff]
  unfold CreateRequest.ReadOnly CreateRequest.BitTestSuffices
  tauto

end

/-- One directory is protected, and process 8 is known as unprotected. -/
def oneDirectory : Globals where
  processMap := Function.update (fun _ => none) 8 (some ⟨8, .of [67], false, 0⟩)
  protectedDirList := [.of [69, 92]]
  enableProtectFile := true

/-- The answers of a kernel that finds no process. -/
def noProcess (_ : Pid) : ImageQuery where
  found := false
  located := none
  resolved := true
  opened := false
  mismatch := false
  allocated := false
  queried := []

/-- Process 8 opens a file of the directory with the given words. -/
def createFrom (desiredAccess options : Dword) : CreateRequest where
  requestorMode := .userMode
  previousMode := .userMode
  currentPid := 8
  filePath := .of [69, 92, 97]
  desiredAccess := desiredAccess
  options := options

/-- `FILE_OPEN` and the even `FILE_OVERWRITE` are decided rightly. -/
theorem preCreateFile_readOnly_open :
    ((preCreateFile noProcess oneDirectory (createFrom 0x1#32 0x01000000#32)).1 =
        .successNoCallback → (createFrom 0x1#32 0x01000000#32).ReadOnly) ∧
      ((preCreateFile noProcess oneDirectory (createFrom 0x1#32 0x04000000#32)).1 =
        .successNoCallback → (createFrom 0x1#32 0x04000000#32).ReadOnly) :=
  have hpath : InProtectedDirectory oneDirectory.protectedDirList (.of [69, 92, 97]) :=
    ⟨[69, 92], [97], List.mem_cons_self, rfl⟩
  ⟨(preCreateFile_readOnly_iff (createFrom 0x1#32 0x01000000#32) rfl rfl rfl rfl
      hpath).mpr (by decide),
    (preCreateFile_readOnly_iff (createFrom 0x1#32 0x04000000#32) rfl rfl rfl rfl
      hpath).mpr (by decide)⟩

/-- `FILE_OVERWRITE_IF` passes: an unprotected process may truncate a protected file. -/
theorem preCreateFile_overwriteIf :
    InProtectedDirectory oneDirectory.protectedDirList (createFrom 0x1#32 0x05000000#32).filePath ∧
      (isProtectedProcess noProcess oneDirectory 8).1 = false ∧
      (preCreateFile noProcess oneDirectory (createFrom 0x1#32 0x05000000#32)).1 =
        .successNoCallback ∧
      ¬ (createFrom 0x1#32 0x05000000#32).ReadOnly := by
  exact ⟨by decide, by decide, by decide, by decide⟩

/-! ### Renames and hard links -/

section
variable {query : Pid → ImageQuery} {g : Globals} (data : SetInformationRequest)

/-- A rename or a link by an unprotected process is denied exactly if both its paths lie in
protected directories. -/
theorem preSetInformationFile_eq_denied_iff (henable : g.enableProtectFile = true)
    (hrequestor : data.requestorMode = .userMode) (hprevious : data.previousMode = .userMode)
    (hprocess : (isProtectedProcess query g data.currentPid).1 = false)
    (hclass : data.fileInformationClass = .fileRenameInformation ∨
      data.fileInformationClass = .fileLinkInformation)
    {destination : List WChar} (hdest : data.destination = some destination) :
    (preSetInformationFile query g data).1 = .complete statusAccessDenied ↔
      InProtectedDirectory g.protectedDirList data.filePath ∧
        InProtectedDirectory g.protectedDirList (.of destination) := by
  have hcheck : checkSetInformation g.protectedDirList data =
      if isInProtectedDirectory g.protectedDirList (.of destination) then
        .complete statusAccessDenied
      else .successNoCallback := by
    unfold checkSetInformation
    rw [hdest]
    rcases hclass with hclass | hclass <;> simp [hclass]
  rw [← isInProtectedDirectory_iff, ← isInProtectedDirectory_iff]
  unfold preSetInformationFile
  simp only [henable, hrequestor, hprevious, hprocess, Bool.true_eq_false, reduceCtorEq, if_false,
    Bool.false_eq_true, isProtectedProcess_protectedDirList, hcheck]
  -- The early return for a source outside of the directories comes first.
  cases isInProtectedDirectory g.protectedDirList data.filePath <;>
    cases isInProtectedDirectory g.protectedDirList (.of destination) <;> simp

/-- A rename or a link that touches a protected directory is denied exactly if the source and
the destination are both inside or both outside. -/
theorem preSetInformationFile_denied_iff (henable : g.enableProtectFile = true)
    (hrequestor : data.requestorMode = .userMode) (hprevious : data.previousMode = .userMode)
    (hprocess : (isProtectedProcess query g data.currentPid).1 = false)
    (hclass : data.fileInformationClass = .fileRenameInformation ∨
      data.fileInformationClass = .fileLinkInformation)
    {destination : List WChar} (hdest : data.destination = some destination) :
    (InProtectedDirectory g.protectedDirList data.filePath ∨
        InProtectedDirectory g.protectedDirList (.of destination) →
      (preSetInformationFile query g data).1 = .complete statusAccessDenied) ↔
      (InProtectedDirectory g.protectedDirList data.filePath ↔
        InProtectedDirectory g.protectedDirList (.of destination)) := by
  rw [preSetInformationFile_eq_denied_iff data henable hrequestor hprevious hprocess hclass hdest]
  tauto

end

/-- Process 8 renames one path to another. -/
def renameFrom (source destination : List WChar) : SetInformationRequest where
  requestorMode := .userMode
  previousMode := .userMode
  currentPid := 8
  filePath := .of source
  fileInformationClass := .fileRenameInformation
  destination := some destination

/-- A rename inside the protected directory is denied. -/
theorem preSetInformationFile_denied_inside :
    InProtectedDirectory oneDirectory.protectedDirList (.of [69, 92, 97]) ∧
      (preSetInformationFile noProcess oneDirectory (renameFrom [69, 92, 97] [69, 92, 98])).1 =
        .complete statusAccessDenied :=
  have hpath : InProtectedDirectory oneDirectory.protectedDirList (.of [69, 92, 97]) :=
    ⟨[69, 92], [97], List.mem_cons_self, rfl⟩
  ⟨hpath, (preSetInformationFile_denied_iff (renameFrom [69, 92, 97] [69, 92, 98]) rfl rfl rfl rfl
    (Or.inl rfl) rfl).mpr (by decide) (Or.inl hpath)⟩

/-- A rename out of the protected directory passes, and so does one into it. -/
theorem preSetInformationFile_rename_out :
    (isProtectedProcess noProcess oneDirectory 8).1 = false ∧
      InProtectedDirectory oneDirectory.protectedDirList (.of [69, 92, 97]) ∧
      (preSetInformationFile noProcess oneDirectory (renameFrom [69, 92, 97] [67, 92, 97])).1 =
        .successNoCallback ∧
      (preSetInformationFile noProcess oneDirectory (renameFrom [67, 92, 97] [69, 92, 97])).1 =
        .successNoCallback := by
  exact ⟨by decide, by decide, by decide, by decide⟩

end KernelEventsTrace.Driver.SelfDefense
