import KernelEventsTrace.EtwService.Consumer
import KernelEventsTrace.Proofs.Etw.MissingProperty

/-!
# `KernelEventsTrace.Proofs.Etw.FailedDecode`: what a failed decode does to the service

If a size that is tested is 0, the constructor of an event sets a flag in its record and leaves the
fields as they are: numbers are 0 and pointers null. No handler looks at the flag. The handlers of
Create and Start events make a string from a null pointer. That of End events handles the end of
process 0, and so takes its entry out of the process map (`onEnd_processMap`).

`failedDecode_iff` says when this does no harm.
-/

set_option autoImplicit false

namespace KernelEventsTrace.EtwService

/-! ### Specification -/

/-- The constructor that the handler calls gives up, because a size that is tested is 0. -/
def DecodeFails (wec : WmiEventClass) (event : Event) (s : Service) (handler : Handler) : Prop :=
  ∃ o, (s.located handler).1.locate wec event (s.located handler).2 = .ok (o, false)

/-- The handler ends without a fault and leaves the two maps as they are. -/
def Harmless (s : Service) (result : Except EventFault Service) : Prop :=
  ∃ s', result = .ok s' ∧ s'.maps.fileNameObjMap = s.maps.fileNameObjMap ∧
    s'.processes.processMap = s.processes.processMap

/-! ### The process map -/

namespace Manager

section
variable {files : NtFiles} {locale : Locale} {owners : Owners}

/-- A query changes at most the entry of the process. -/
theorem getImageFileName_processMap (s : State) (pid p : UInt64) (hp : p ≠ pid) :
    (getImageFileName files locale owners s pid).2.processMap p = s.processMap p := by
  have hupdate : ∀ image, updateImageFileName s.processMap pid image p = s.processMap p := by
    intro image
    unfold updateImageFileName
    cases s.processMap pid <;> exact Function.update_of_ne hp _ _
  have hlook : (lookUpImageFileName files locale owners s pid).2.processMap p =
      s.processMap p := by
    simp only [lookUpImageFileName]
    split_ifs
    · exact hupdate _
    · rfl
  unfold getImageFileName
  cases s.processMap pid with
  | none => exact hlook
  | some info =>
    dsimp only
    split_ifs
    · rfl
    · exact hlook

/-- An End event takes out the entry of the process, and changes nothing else. -/
theorem onEnd_processMap (s : State) (pid : UInt64) :
    (s.onEnd files locale owners pid).processMap = Function.update s.processMap pid none := by
  funext p
  show removeProcess (getImageFileName files locale owners s pid).2.processMap pid p = _
  unfold removeProcess
  by_cases hp : p = pid
  · rw [hp, Function.update_self, Function.update_self]
  · rw [Function.update_of_ne hp, Function.update_of_ne hp, getImageFileName_processMap s pid p hp]

end

end Manager

/-! ### Main result -/

/-- A handler whose event could not be decoded does no harm exactly if it is the one for End events
and the process map has no entry for PID 0. -/
theorem failedDecode_iff (env : Environment) {wec : WmiEventClass} (header : EventHeader)
    {event : Event} {s : Service} {handler : Handler} (hfails : DecodeFails wec event s handler) :
    Harmless s (s.handle env wec header event handler) ↔
      handler = .processEnd ∧ s.processes.processMap 0 = none := by
  rcases hfails with ⟨o, hlocate⟩
  cases handler with
  | fileIoCreate =>
    -- `open_path` is null.
    have hlocate : fileIoCreateEventMember.locate wec event s.fileIoCreateOffset = .ok (o, false) :=
      hlocate
    have hrun : s.handle env wec header event .fileIoCreate = .error .nullString := by
      simp only [Service.handle, Service.onFileIoCreate, FileIoCreateEventMember.construct, hlocate,
        wideStringAt]
    rw [hrun]
    simp [Harmless]
  | processStart =>
    -- `image_file_name` is null.
    have hlocate : processTypeGroup1EventMember.locate wec event s.processStartOffset =
        .ok (o, false) := hlocate
    have hrun : s.handle env wec header event .processStart = .error .nullString := by
      simp only [Service.handle, Service.onProcessStart, ProcessTypeGroup1EventMember.construct,
        hlocate, narrowStringAt]
    rw [hrun]
    simp [Harmless]
  | processEnd =>
    have hlocate : processTypeGroup1EventMember.locate wec event s.processEndOffset =
        .ok (o, false) := hlocate
    have hrun : s.handle env wec header event .processEnd = .ok { s with
        processes := s.processes.onEnd env.files env.locale env.owners 0,
        processEndOffset := o } := by
      simp only [Service.handle, Service.onProcessEnd, ProcessTypeGroup1EventMember.construct,
        hlocate]
    rw [hrun]
    simp only [Harmless, Except.ok.injEq, exists_eq_left', Manager.onEnd_processMap, true_and]
    constructor
    · intro h
      rw [← h, Function.update_self]
    · intro h
      rw [← h, Function.update_eq_self]

/-! ### Events of a class without description -/

/-- WMI knows nothing about the class. -/
def undescribed : WmiEventClass := ⟨fun _ => quietHost, 8, none⟩

/-- No path is looked up, and no process can be opened. -/
def quietEnvironment : Environment where
  os := ⟨fun path => path, fun path => path, fun _ => false⟩
  files := ⟨fun _ => none⟩
  locale := .asciiOnly
  owners := fun _ => none

/-- The service at the start. -/
def Service.initial : Service := ⟨Maps.initial, ⟨fun _ => none, fun _ => none⟩, {}, {}, {}⟩

/-- A Create event of an undescribed class makes a string from a null pointer. -/
theorem undescribed_create :
    DecodeFails undescribed terminatedEvent Service.initial .fileIoCreate ∧
      Service.initial.handle quietEnvironment undescribed ⟨4, 0⟩ terminatedEvent .fileIoCreate =
        .error .nullString ∧
      ¬ Harmless Service.initial
        (Service.initial.handle quietEnvironment undescribed ⟨4, 0⟩ terminatedEvent
          .fileIoCreate) := by
  have hrun : Service.initial.handle quietEnvironment undescribed ⟨4, 0⟩ terminatedEvent
      .fileIoCreate = .error .nullString := by rfl
  refine ⟨⟨_, rfl⟩, hrun, ?_⟩
  rw [hrun]
  simp [Harmless]

/-- An End event does nothing as long as the process map is empty. -/
theorem undescribed_end :
    Harmless Service.initial
      (Service.initial.handle quietEnvironment undescribed ⟨4, 0⟩ terminatedEvent .processEnd) :=
  (failedDecode_iff quietEnvironment ⟨4, 0⟩ ⟨_, rfl⟩).mpr ⟨rfl, rfl⟩

end KernelEventsTrace.EtwService
