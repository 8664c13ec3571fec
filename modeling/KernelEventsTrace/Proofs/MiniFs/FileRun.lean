import KernelEventsTrace.Driver.Template.FileRun
import KernelEventsTrace.Proofs.MiniFs.Dispatch
import KernelEventsTrace.Proofs.SelfDefense.Files
import KernelEventsTrace.Proofs.SelfDefense.Handles

/-!
# `KernelEventsTrace.Proofs.MiniFs.FileRun`: which file operations are denied over whole runs

The two functions of the self-defense run through the minifilter, for the operations of processes
that come and go. `Guarded` is a user operation that changes a file in a protected directory, or its
names. `Missed` has those changes that the functions let pass for all processes.

An operation is completed if it is guarded and not missed, and `IsProtectedProcess` is false for its
process (`result_complete_iff`), and `fileOperation_of_user` says so about the whole way through
the minifilter. The invariant of `kProcessMap` then gives the image of the process
(`FltReachable.denied`).
-/

set_option autoImplicit false

namespace KernelEventsTrace.Driver.MiniFs

open KernelEventsTrace (BufferFault Buffer)
open KernelEventsTrace.Driver.Std
open KernelEventsTrace.Driver.SelfDefense

/-! ### Specification -/

/-- The values of `FileValidDataLengthInformation`, `FileDispositionInformationEx`,
`FileRenameInformationEx` and `FileLinkInformationEx`, which the callback has no test for. -/
def untestedChanges : List Nat := [39, 64, 65, 72]

/-- The operation changes the content, the size, the existence or a name of the file: it does more
than to open an existing file for reading, or sets such an information. Writing needs a file that
was opened for it. -/
def FileRequest.Changes (r : FileRequest) : Prop :=
  match r.parameters with
  | .create _ _ => ¬ r.create.ReadOnly
  | .setInformation (.other value) _ => value ∈ untestedChanges
  | .setInformation _ _ => True
  | .other _ _ _ => False

/-- What passes for every process: an odd disposition other than `FILE_OPEN`, a rename or a link to
a name outside of the protected directories, and the classes without a test. -/
def FileRequest.Missed (dirs : List (KString WChar)) (r : FileRequest) : Prop :=
  match r.parameters with
  | .create _ _ => ¬ r.create.BitTestSuffices
  | .setInformation (.other value) _ => value ∈ untestedChanges
  | .setInformation .fileLinkInformation destination
  | .setInformation .fileRenameInformation destination =>
    ∀ name, destination = some name → ¬ InProtectedDirectory dirs (.of name)
  | .setInformation _ _ => False
  | .other _ _ _ => False

/-- The name that a rename or a link asks for can be found out. -/
def FileRequest.Resolved (r : FileRequest) : Prop :=
  ∀ fileInformationClass, r.parameters = .setInformation fileInformationClass none →
    fileInformationClass ≠ .fileLinkInformation ∧ fileInformationClass ≠ .fileRenameInformation

/-- A user operation that changes a file in a protected directory. -/
structure FileRequest.Guarded (g : Globals) (r : FileRequest) : Prop where
  enabled : g.enableProtectFile = true
  file : r.hasFileObject = true
  requestor : r.requestorMode = .userMode
  previous : r.previousMode = .userMode
  path : InProtectedDirectory g.protectedDirList r.filePath
  changes : r.Changes

/-! ### One operation -/

/-- `PreCreateFile` denies what is not read-only, if its own bit tests notice it. -/
theorem checkCreate_complete_iff (r : FileRequest) :
    callbackStatus (checkCreate r.create.desiredAccess r.create.options) = .complete ↔
      ¬ r.create.ReadOnly ∧ r.create.BitTestSuffices := by
  have hsuccess := checkCreate_eq_success_iff r.create.desiredAccess r.create.options
  have hopen : r.create.options >>> 24 = 1#32 → (r.create.options >>> 24) &&& 1#32 ≠ 0#32 := by
    intro h
    rw [h]
    decide
  have hcases : checkCreate r.create.desiredAccess r.create.options = .complete statusAccessDenied ∨
      checkCreate r.create.desiredAccess r.create.options = .successNoCallback := by
    unfold checkCreate
    dsimp only
    split
    · exact .inl rfl
    · exact .inr rfl
  unfold CreateRequest.ReadOnly CreateRequest.BitTestSuffices
  rcases hcases with h | h
  · rw [h] at hsuccess ⊢
    simp only [reduceCtorEq, false_iff, callbackStatus, true_iff] at hsuccess ⊢
    tauto
  · rw [h] at hsuccess ⊢
    simp only [true_iff, callbackStatus, reduceCtorEq, false_iff] at hsuccess ⊢
    tauto

/-- A denial by a test. -/
theorem callbackStatus_ite (b : Bool) : callbackStatus
    (if b = true then .complete statusAccessDenied else .successNoCallback) = .complete ↔
      b = true := by
  cases b <;> simp [callbackStatus]

/-- The classes that are denied, and those for which the destination decides. -/
theorem checkSetInformation_complete_iff (dirs : List (KString WChar)) (r : FileRequest)
    {fileInformationClass : FileInformationClass} {destination : Option (List WChar)}
    (hr : r.parameters = .setInformation fileInformationClass destination)
    (hresolved : r.Resolved) :
    callbackStatus (checkSetInformation dirs r.setInformation) = .complete ↔
      r.Changes ∧ ¬ r.Missed dirs := by
  have hclass : r.setInformation.fileInformationClass = fileInformationClass := by
    unfold FileRequest.setInformation
    rw [hr]
  have hdest : r.setInformation.destination = destination := by
    unfold FileRequest.setInformation
    rw [hr]
  unfold FileRequest.Changes FileRequest.Missed checkSetInformation
  rw [hr, hclass, hdest]
  -- For a link and a rename the destination decides, for all other classes the class alone.
  cases fileInformationClass with
  | other value => simp [callbackStatus]
  | fileLinkInformation =>
    cases destination with
    | none => exact absurd rfl (hresolved _ hr).1
    | some name => simp [callbackStatus_ite, ← isInProtectedDirectory_iff]
  | fileRenameInformation =>
    cases destination with
    | none => exact absurd rfl (hresolved _ hr).2
    | some name => simp [callbackStatus_ite, ← isInProtectedDirectory_iff]
  | fileAllocationInformation => simp [callbackStatus]
  | fileDispositionInformation => simp [callbackStatus]
  | fileEndOfFileInformation => simp [callbackStatus]
  | fileShortNameInformation => simp [callbackStatus]

/-- The unset pointer is released only for a name that cannot be found out. -/
theorem checkSetInformation_ne_releaseUnset (dirs : List (KString WChar)) (r : FileRequest)
    {fileInformationClass : FileInformationClass} {destination : Option (List WChar)}
    (hr : r.parameters = .setInformation fileInformationClass destination)
    (hresolved : r.Resolved) : checkSetInformation dirs r.setInformation ≠ .releaseUnset := by
  have hclass : r.setInformation.fileInformationClass = fileInformationClass := by
    unfold FileRequest.setInformation
    rw [hr]
  have hdest : r.setInformation.destination = destination := by
    unfold FileRequest.setInformation
    rw [hr]
  unfold checkSetInformation
  rw [hclass, hdest]
  -- Without a name, the class is neither a link nor a rename.
  cases destination with
  | none =>
    obtain ⟨hlink, hrename⟩ := hresolved _ hr
    simp only [hlink, hrename, or_self, if_false]
    split <;> simp
  | some name =>
    split
    · simp
    · split
      · dsimp only
        split <;> simp
      · simp

/-- What the function for the operation returns, and what it does to the static variables. The
other function is not called. -/
def FileRequest.result (query : Pid → ImageQuery) (g : Globals) (r : FileRequest) :
    PreopResult × Globals :=
  match r.parameters with
  | .create _ _ => preCreateFile query g r.create
  | .setInformation _ _ => preSetInformationFile query g r.setInformation
  | .other _ _ _ => (.successNoCallback, g)

/-- The same, as the minifilter sees it. -/
def FileRequest.handled (query : Pid → ImageQuery) (s : CallbackState) (r : FileRequest) :
    PreopCallbackStatus × CallbackState :=
  callFileCallback (fun g => r.result query g) s

section
variable {query : Pid → ImageQuery} {g : Globals}

/-- The first tests of the two file callbacks. -/
theorem preCreateFile_complete_iff (data : CreateRequest) :
    callbackStatus (preCreateFile query g data).1 = .complete ↔
      g.enableProtectFile = true ∧ data.requestorMode = .userMode ∧
        data.previousMode = .userMode ∧ (isProtectedProcess query g data.currentPid).1 = false ∧
        InProtectedDirectory g.protectedDirList data.filePath ∧
        callbackStatus (checkCreate data.desiredAccess data.options) = .complete := by
  rw [← isInProtectedDirectory_iff]
  unfold preCreateFile
  cases henable : g.enableProtectFile <;> cases hreq : data.requestorMode <;>
    cases hprev : data.previousMode <;>
    cases hproc : (isProtectedProcess query g data.currentPid).1 <;>
    cases hpath : isInProtectedDirectory g.protectedDirList data.filePath <;>
    simp [callbackStatus, hproc, hpath]

/-- `PreSetInformationFile` denies under all of its conditions together. -/
theorem preSetInformationFile_complete_iff (data : SetInformationRequest) :
    callbackStatus (preSetInformationFile query g data).1 = .complete ↔
      g.enableProtectFile = true ∧ data.requestorMode = .userMode ∧
        data.previousMode = .userMode ∧ (isProtectedProcess query g data.currentPid).1 = false ∧
        InProtectedDirectory g.protectedDirList data.filePath ∧
        callbackStatus (checkSetInformation g.protectedDirList data) = .complete := by
  rw [← isInProtectedDirectory_iff]
  unfold preSetInformationFile
  cases henable : g.enableProtectFile <;> cases hreq : data.requestorMode <;>
    cases hprev : data.previousMode <;>
    cases hproc : (isProtectedProcess query g data.currentPid).1 <;>
    cases hpath : isInProtectedDirectory g.protectedDirList data.filePath <;>
    simp [callbackStatus, hproc, hpath]

/-- A file callback asks for its process, or does not get so far. -/
theorem preCreateFile_globals (data : CreateRequest) : (preCreateFile query g data).2 = g ∨
    (preCreateFile query g data).2 = (isProtectedProcess query g data.currentPid).2 := by
  unfold preCreateFile
  split
  · exact .inl rfl
  · split
    · exact .inl rfl
    · split
      · exact .inl rfl
      · dsimp only
        split
        · exact .inr rfl
        · split
          · exact .inr rfl
          · exact .inr rfl

/-- The process map is kept, or changed by the lookup of the process. -/
theorem preSetInformationFile_globals (data : SetInformationRequest) :
    (preSetInformationFile query g data).2 = g ∨
      (preSetInformationFile query g data).2 =
        (isProtectedProcess query g data.currentPid).2 := by
  unfold preSetInformationFile
  split
  · exact .inl rfl
  · split
    · exact .inl rfl
    · split
      · exact .inl rfl
      · dsimp only
        split
        · exact .inr rfl
        · split
          · exact .inr rfl
          · exact .inr rfl

variable (r : FileRequest)

/-- An operation does the same to the process map. -/
theorem result_globals : (r.result query g).2 = g ∨
    (r.result query g).2 = (isProtectedProcess query g r.currentPid).2 := by
  unfold FileRequest.result
  split
  · exact preCreateFile_globals r.create
  · exact preSetInformationFile_globals r.setInformation
  · exact .inl rfl

/-- A user operation on a file is completed if it is guarded and not missed, and its process is not
protected. -/
theorem result_complete_iff (hfile : r.hasFileObject = true) (hresolved : r.Resolved) :
    callbackStatus (r.result query g).1 = .complete ↔
      r.Guarded g ∧ ¬ r.Missed g.protectedDirList ∧
        (isProtectedProcess query g r.currentPid).1 = false := by
  -- The fields of `Guarded` in the order of the tests.
  have hguarded : r.Guarded g ↔ g.enableProtectFile = true ∧ r.requestorMode = .userMode ∧
      r.previousMode = .userMode ∧ InProtectedDirectory g.protectedDirList r.filePath ∧
      r.Changes :=
    ⟨fun h => ⟨h.enabled, h.requestor, h.previous, h.path, h.changes⟩,
      fun ⟨h1, h2, h3, h4, h5⟩ => ⟨h1, hfile, h2, h3, h4, h5⟩⟩
  rw [hguarded]
  cases hr : r.parameters with
  | create desiredAccess options =>
    have hresult : r.result query g = preCreateFile query g r.create := by
      unfold FileRequest.result
      rw [hr]
    have hchanges : r.Changes ∧ ¬ r.Missed g.protectedDirList ↔
        callbackStatus (checkCreate r.create.desiredAccess r.create.options) = .complete := by
      rw [checkCreate_complete_iff]
      unfold FileRequest.Changes FileRequest.Missed
      rw [hr]
      dsimp only
      rw [not_not]
    rw [hresult, preCreateFile_complete_iff, ← hchanges]
    show _ ∧ r.requestorMode = _ ∧ r.previousMode = _ ∧
      (isProtectedProcess query g r.currentPid).1 = false ∧
      InProtectedDirectory _ r.filePath ∧ _ ↔ _
    tauto
  | setInformation fileInformationClass destination =>
    have hresult : r.result query g = preSetInformationFile query g r.setInformation := by
      unfold FileRequest.result
      rw [hr]
    rw [hresult, preSetInformationFile_complete_iff,
      checkSetInformation_complete_iff _ r hr hresolved]
    show _ ∧ r.requestorMode = _ ∧ r.previousMode = _ ∧
      (isProtectedProcess query g r.currentPid).1 = false ∧
      InProtectedDirectory _ r.filePath ∧ _ ↔ _
    tauto
  | other majorFunction ne_create ne_setInformation =>
    have hresult : r.result query g = (.successNoCallback, g) := by
      unfold FileRequest.result
      rw [hr]
    -- No function is called, and nothing is changed.
    have hchanges : ¬ r.Changes := by
      unfold FileRequest.Changes
      rw [hr]
      exact id
    rw [hresult]
    simp [hchanges, callbackStatus]

/-- The status of a create request is one that `PreCreateFile` chooses. -/
theorem preCreateFile_ne_releaseUnset (data : CreateRequest) :
    (preCreateFile query g data).1 ≠ .releaseUnset := by
  unfold preCreateFile
  split
  · simp
  · split
    · simp
    · split
      · simp
      · dsimp only
        split
        · simp
        · split
          · simp
          · unfold checkCreate
            dsimp only
            split <;> simp

/-- No pointer that was never written is released, unless a name cannot be found out. -/
theorem result_ne_releaseUnset (hresolved : r.Resolved) :
    (r.result query g).1 ≠ .releaseUnset := by
  cases hr : r.parameters with
  | create desiredAccess options =>
    unfold FileRequest.result
    rw [hr]
    exact preCreateFile_ne_releaseUnset r.create
  | setInformation fileInformationClass destination =>
    have hcheck := fun dirs => checkSetInformation_ne_releaseUnset dirs r hr hresolved
    unfold FileRequest.result
    rw [hr]
    show (preSetInformationFile query g r.setInformation).1 ≠ _
    unfold preSetInformationFile
    split
    · simp
    · split
      · simp
      · split
        · simp
        · dsimp only
          split
          · simp
          · split
            · simp
            · exact hcheck _
  | other majorFunction ne_create ne_setInformation =>
    unfold FileRequest.result
    rw [hr]
    simp

/-- An operation as the minifilter sees it. -/
theorem handled_eq (hresolved : r.Resolved) : r.handled query ⟨g, false⟩ =
    (callbackStatus (r.result query g).1, ⟨(r.result query g).2, false⟩) := by
  have hne : (r.result query g).1 ≠ .releaseUnset := result_ne_releaseUnset r hresolved
  unfold FileRequest.handled callFileCallback
  simp [hne]

end

/-! ### The minifilter -/

section
variable {pool : Pool} {query : Pid → ImageQuery} {r : FileRequest}

/-- A function for another operation. -/
theorem preLoop_skip {σ : Type} {op : Operation} {p : ContextPtr} {func : IrpMjFunc σ}
    (funcs : List (IrpMjFunc σ)) (i : Nat) (st : State σ)
    (hcode : op.majorFunction ≠ func.irpMjFunctionCode) :
    preLoop op p (func :: funcs) i st = preLoop op p funcs (i + 1) st := by
  rw [preLoop, if_neg hcode]

/-- A function for the operation. -/
theorem preLoop_call {σ : Type} {op : Operation} {p : ContextPtr} {func : IrpMjFunc σ}
    (funcs : List (IrpMjFunc σ)) {i : Nat} {st : State σ}
    (hcode : op.majorFunction = func.irpMjFunctionCode) {pre : σ → PreopCallbackStatus × σ}
    (hpre : func.preFunc = some pre) {v : VectorObj PreopCallbackStatus}
    (hctx : st.contexts[p]? = some (some ⟨v⟩)) (hi : i < v.elements.cells.length) :
    preLoop op p (func :: funcs) i st =
      if (pre st.rest).1 = .complete then
        .ok (.complete, ⟨st.contexts.set p none, (pre st.rest).2⟩)
      else preLoop op p funcs (i + 1) ⟨st.contexts.set p (some
        ⟨{ v with elements := .array (v.elements.cells.set i (pre st.rest).1) }⟩),
        (pre st.rest).2⟩ := by
  have hctx1 : ({ st with rest := (pre st.rest).2 } : State σ).contexts[p]? = some (some ⟨v⟩) :=
    hctx
  have hctx2 := State.getElem?_put
    ⟨{ v with elements := .array (v.elements.cells.set i (pre st.rest).1) }⟩ hctx1
  rw [preLoop, if_pos hcode, hpre]
  simp only [State.writeStatus_of_lt hctx1 hi, bind, Except.bind]
  by_cases hstatus : (pre st.rest).1 = .complete
  · rw [if_pos hstatus, if_pos hstatus, State.deallocCompletionContext_of_getElem? hctx2]
    simp [State.put, pure, Except.pure]
  · rw [if_neg hstatus, if_neg hstatus]
    rfl

/-- The two functions, without a post function. -/
theorem registeredFunctions_eq (query : Pid → ImageQuery) (r : FileRequest) :
    ∃ f f' : IrpMjFunc CallbackState,
      registeredFunctions query r.setInformation r.create = [f, f'] ∧
        f.irpMjFunctionCode = IRP_MJ_SET_INFORMATION ∧ f'.irpMjFunctionCode = IRP_MJ_CREATE ∧
        f.preFunc = some (callFileCallback fun g =>
          preSetInformationFile query g r.setInformation) ∧
        f'.preFunc = some (callFileCallback fun g => preCreateFile query g r.create) ∧
        f.postFunc = none ∧ f'.postFunc = none :=
  ⟨_, _, rfl, rfl, rfl, rfl, rfl, rfl, rfl⟩

/-- The loop of the pre-operation callback calls the function for the operation, if there is one. -/
theorem preLoop_registered (query : Pid → ImageQuery) (r : FileRequest) (p : ContextPtr)
    {st : State CallbackState}
    {v : VectorObj PreopCallbackStatus} (hctx : st.contexts[p]? = some (some ⟨v⟩))
    (hlen : v.elements.cells.length = 2) :
    if (r.handled query st.rest).1 = .complete then
      preLoop r.operation p (registeredFunctions query r.setInformation r.create) 0 st =
        .ok (.complete, ⟨st.contexts.set p none, (r.handled query st.rest).2⟩)
    else ∃ v' : VectorObj PreopCallbackStatus, v'.elements.cells.length = 2 ∧
      preLoop r.operation p (registeredFunctions query r.setInformation r.create) 0 st =
        .ok (.successWithCallback,
          ⟨st.contexts.set p (some ⟨v'⟩), (r.handled query st.rest).2⟩) := by
  have hmajor : r.operation.majorFunction = r.parameters.majorFunction := rfl
  obtain ⟨f, f', hfuncs, hf, hf', hset, hcreate, -, -⟩ := registeredFunctions_eq query r
  rw [hfuncs]
  unfold FileRequest.handled FileRequest.result
  cases hr : r.parameters with
  | create desiredAccess options =>
    rw [hr] at hmajor
    dsimp only
    -- The first function is for another code, the second one is called.
    have hne : r.operation.majorFunction ≠ f.irpMjFunctionCode := by
      rw [hmajor, hf]
      exact (by decide : IRP_MJ_CREATE ≠ IRP_MJ_SET_INFORMATION)
    rw [preLoop_skip _ _ _ hne, preLoop_call _ (hmajor.trans hf'.symm) hcreate hctx (by omega)]
    by_cases hstatus : (callFileCallback (fun g => preCreateFile query g r.create)
        st.rest).1 = .complete
    · rw [if_pos hstatus, if_pos hstatus]
    · rw [if_neg hstatus, if_neg hstatus]
      exact ⟨_, by simpa using hlen, rfl⟩
  | setInformation fileInformationClass destination =>
    rw [hr] at hmajor
    dsimp only
    -- The first function is called. The second one is only reached if that does not deny.
    have hne : r.operation.majorFunction ≠ f'.irpMjFunctionCode := by
      rw [hmajor, hf']
      exact (by decide : IRP_MJ_SET_INFORMATION ≠ IRP_MJ_CREATE)
    rw [preLoop_call _ (hmajor.trans hf.symm) hset hctx (by omega)]
    by_cases hstatus : (callFileCallback (fun g => preSetInformationFile query g r.setInformation)
        st.rest).1 = .complete
    · rw [if_pos hstatus, if_pos hstatus]
    · rw [if_neg hstatus, if_neg hstatus, preLoop_skip _ _ _ hne]
      exact ⟨_, by simpa using hlen, rfl⟩
  | other majorFunction ne_create ne_setInformation =>
    rw [hr] at hmajor
    -- Neither of the functions is called.
    have hsame : callFileCallback (fun g => (PreopResult.successNoCallback, g)) st.rest =
        (.successNoCallback, st.rest) := by
      simp [callFileCallback, callbackStatus]
    dsimp only
    rw [hsame, if_neg (by simp),
      preLoop_skip _ _ _ (by rw [hmajor, hf]; exact ne_setInformation),
      preLoop_skip _ _ _ (by rw [hmajor, hf']; exact ne_create)]
    refine ⟨v, hlen, ?_⟩
    obtain ⟨hp, heq⟩ := List.getElem?_eq_some_iff.mp hctx
    rw [← heq, List.set_getElem_self hp]
    rfl

/-- No post function is registered, so the context is all that the post-operation callback deals
with. -/
theorem miniFsPostOperation_registered (query : Pid → ImageQuery) (r : FileRequest)
    (ioStatus : NtStatus) {p : ContextPtr} {st : State CallbackState}
    {v : VectorObj PreopCallbackStatus} (hctx : st.contexts[p]? = some (some ⟨v⟩)) :
    miniFsPostOperation (registeredFunctions query r.setInformation r.create) r.operation (some p)
      ioStatus st = .ok { st with contexts := st.contexts.set p none } := by
  obtain ⟨f, f', hfuncs, -, -, -, -, hpost, hpost'⟩ := registeredFunctions_eq query r
  have hloop : postLoop r.operation p [f, f'] 0 st = .ok st := by
    unfold postLoop postLoop postLoop
    rw [hpost, hpost']
    simp
  have hdealloc := State.deallocCompletionContext_of_getElem? hctx
  unfold miniFsPostOperation
  rw [hfuncs]
  by_cases hfailed : ntSuccess ioStatus = false
  · simp only [hfailed, if_true, hdealloc]
  · simp only [hfailed, hloop, bind, Except.bind, hdealloc, ite_self]

/-- An operation through the minifilter, when there is the memory for a context. -/
theorem operation_registered (hroom : 2 ≤ pool.limit) (hfile : r.hasFileObject = true)
    (huser : r.requestorMode = .userMode) (contexts : List (Option Context))
    (g : CallbackState) (ioStatus : NtStatus) :
    operation pool (registeredFunctions query r.setInformation r.create) r.operation ioStatus
      ⟨contexts, g⟩ = .ok (decide ((r.handled query g).1 = .complete),
        ⟨contexts ++ [none], (r.handled query g).2⟩) := by
  rcases constructSize_cases pool 2 with ⟨hlt, -⟩ | ⟨-, b, hb, hlen, -⟩
  · omega
  -- The new context is the last one, in a vector with a status for each of the two functions.
  have hset : ∀ context : Option Context,
      (contexts ++ [some (Context.mk ⟨2, b, 2⟩)]).set contexts.length context =
        contexts ++ [context] := by simp
  obtain ⟨halloc, hresize⟩ := newContext_eq hb (⟨contexts, g⟩ : State CallbackState)
  have hpre : miniFsPreOperation pool (registeredFunctions query r.setInformation r.create)
      r.operation none ⟨contexts, g⟩ = (do
        let (status, st) ← preLoop r.operation contexts.length
          (registeredFunctions query r.setInformation r.create) 0
          ⟨contexts ++ [some ⟨⟨2, b, 2⟩⟩], g⟩
        return (status, some contexts.length, st)) := by
    have hsize : (registeredFunctions query r.setInformation r.create).length = 2 := rfl
    unfold miniFsPreOperation FileRequest.operation
    simp only [hfile, huser, hsize, halloc, hresize, bind, Except.bind, reduceCtorEq, if_false,
      Bool.true_eq_false]
  have hctx : (contexts ++ [some (Context.mk ⟨2, b, 2⟩)])[contexts.length]? =
      some (some ⟨⟨2, b, 2⟩⟩) := by simp
  have hctx' : (⟨contexts ++ [some ⟨⟨2, b, 2⟩⟩], g⟩ :
      State CallbackState).contexts[contexts.length]? = some (some ⟨⟨2, b, 2⟩⟩) := hctx
  have hloop := preLoop_registered query r contexts.length hctx' hlen
  dsimp only at hloop
  unfold operation
  rw [hpre]
  by_cases hstatus : (r.handled query g).1 = .complete
  · rw [if_pos hstatus] at hloop
    rw [hloop, hset, decide_eq_true hstatus]
    rfl
  · rw [if_neg hstatus] at hloop
    obtain ⟨v, -, hrun⟩ := hloop
    rw [hrun, hset, decide_eq_false hstatus]
    have hlast : (⟨contexts ++ [some ⟨v⟩], (r.handled query g).2⟩ :
        State CallbackState).contexts[contexts.length]? = some (some ⟨v⟩) := by simp
    simp only [bind, Except.bind, pure, Except.pure,
      miniFsPostOperation_registered query r ioStatus hlast]
    simp

/-- An operation that the minifilter does not look at. -/
theorem fileOperation_of_not_user {st : FltState}
    (h : ¬ (r.hasFileObject = true ∧ r.requestorMode = .userMode)) (ioStatus : NtStatus) :
    st.fileOperation pool r ioStatus = .ok (false, st) := by
  unfold FltState.fileOperation operation miniFsPreOperation FileRequest.operation
  cases hfile : r.hasFileObject with
  | false => simp [bind, Except.bind, pure, Except.pure]
  | true =>
    have hkernel : r.requestorMode = .kernelMode := by
      cases hmode : r.requestorMode with
      | kernelMode => rfl
      | userMode => exact absurd ⟨hfile, hmode⟩ h
    simp [hkernel, bind, Except.bind, pure, Except.pure]

/-- An operation that it looks at. Without the memory for a context nothing happens. -/
theorem fileOperation_of_user {st : FltState} (hfile : r.hasFileObject = true)
    (huser : r.requestorMode = .userMode) (ioStatus : NtStatus) :
    st.fileOperation pool r ioStatus = .error .noMemory ∨
      st.fileOperation pool r ioStatus =
        if (r.handled st.world.query ⟨st.world.globals, false⟩).2.unsetReleased then
          .error .outOfBounds
        else .ok (decide ((r.handled st.world.query ⟨st.world.globals, false⟩).1 = .complete),
          ⟨{ st.world with
              globals := (r.handled st.world.query ⟨st.world.globals, false⟩).2.globals },
            st.contexts ++ [none]⟩) := by
  unfold FltState.fileOperation
  rcases Nat.lt_or_ge pool.limit 2 with hlt | hroom
  · left
    rcases constructSize_cases pool 2 with ⟨-, hnone⟩ | ⟨hle, -⟩
    · have hsize : (registeredFunctions st.world.query r.setInformation r.create).length = 2 :=
        rfl
      unfold operation miniFsPreOperation State.allocCompletionContext FileRequest.operation
      simp only [hfile, huser, hsize, hnone, bind, Except.bind, reduceCtorEq, if_false,
        Bool.true_eq_false]
    · omega
  · right
    simp only [operation_registered hroom hfile huser, bind, Except.bind, pure, Except.pure]

end

/-! ### Runs -/

/-- What processes and file operations lead to, from no entries and no contexts. The creation
notifications are fresh. -/
inductive FltReachable (pool : Pool) : FltState → Prop where
  | start {w : World} : (∀ pid, w.globals.processMap pid = none) → FltReachable pool ⟨w, []⟩
  | process {st : FltState} {w : World} (ev : Event) : FltReachable pool st →
      st.world.Fresh ev → st.world.step ev = some w → FltReachable pool ⟨w, st.contexts⟩
  | file {st st' : FltState} (r : FileRequest) (ioStatus : NtStatus) {denied : Bool} :
      FltReachable pool st → (st.world.procs r.currentPid).isSome = true →
      st.fileOperation pool r ioStatus = .ok (denied, st') → FltReachable pool st'

/-- The invariant of `kProcessMap`, and no context is left. -/
structure FltInv (st : FltState) : Prop where
  world : st.world.Inv
  contexts : ∀ c ∈ st.contexts, c = none

/-- A file operation keeps the invariant, and frees its context. -/
theorem FltInv.file {pool : Pool} {st st' : FltState} (h : FltInv st) {r : FileRequest}
    {ioStatus : NtStatus} {denied : Bool} (hpid : (st.world.procs r.currentPid).isSome = true)
    (hop : st.fileOperation pool r ioStatus = .ok (denied, st')) : FltInv st' := by
  by_cases huser : r.hasFileObject = true ∧ r.requestorMode = .userMode
  · rcases fileOperation_of_user huser.1 huser.2 ioStatus with heq | heq
    · rw [heq] at hop
      cases hop
    · rw [heq] at hop
      split at hop
      · cases hop
      cases hop
      constructor
      · obtain ⟨p, hp⟩ := Option.isSome_iff_exists.mp hpid
        show ({ st.world with
          globals := (r.result st.world.query st.world.globals).2 } : World).Inv
        -- At most one entry is new, that of the process itself.
        rcases result_globals r with hg | hg
        · rw [hg]
          exact h.world
        · rw [hg]
          exact h.world.of_isProtectedProcess hp
      · intro c hc
        rcases List.mem_append.mp hc with hc | hc
        · exact h.contexts c hc
        · exact List.mem_singleton.mp hc
  · rw [fileOperation_of_not_user huser ioStatus] at hop
    cases hop
    exact h

/-- The invariant holds in every run. -/
theorem FltReachable.inv {pool : Pool} {st : FltState} (h : FltReachable pool st) :
    FltInv st := by
  induction h with
  | start hnone =>
    refine ⟨World.Reachable.inv (.start hnone), fun c hc => ?_⟩
    cases hc
  | process ev _ hfresh hstep ih => exact ⟨ih.world.step hfresh hstep, ih.contexts⟩
  | file r ioStatus _ hpid hop ih => exact ih.file hpid hop

/-- In every run a file operation of a running process is denied only if it is a user operation that
changes a file in a protected directory and is not missed, by a process with its image outside of
these. If no ancestor of the process is in one either, every such operation is denied. The callbacks
make no fault, and leave no context behind. -/
theorem FltReachable.denied {pool : Pool} {st : FltState} (h : FltReachable pool st)
    (r : FileRequest) (hresolved : r.Resolved) (ioStatus : NtStatus) {p : Process}
    (hp : st.world.procs r.currentPid = some p) (hrun : p.phase = .running) :
    Yields (st.fileOperation pool r ioStatus) fun result =>
      (result.1 = true → r.Guarded st.world.globals ∧
        ¬ r.Missed st.world.globals.protectedDirList ∧
        ¬ InProtectedDirectory st.world.globals.protectedDirList (.of p.path)) ∧
      (r.Guarded st.world.globals → ¬ r.Missed st.world.globals.protectedDirList →
        ¬ p.Protected st.world.globals.protectedDirList → result.1 = true) ∧
      ∀ c ∈ result.2.contexts, c = none := by
  have hinv := h.inv
  by_cases huser : r.hasFileObject = true ∧ r.requestorMode = .userMode
  · -- There may be no memory for the context.
    rcases fileOperation_of_user huser.1 huser.2 ioStatus with heq | heq
    · rw [heq]
      trivial
    · rw [handled_eq r hresolved, if_neg Bool.false_ne_true] at heq
      have hcontexts := (hinv.file (by rw [hp]; rfl) heq).contexts
      have hcomplete :
          callbackStatus (r.result st.world.query st.world.globals).1 = .complete ↔ _ :=
        result_complete_iff r huser.1 hresolved
      refine Yields.of_eq_ok heq ⟨fun hdenied => ?_, fun hguarded hnot hunprotected => ?_,
        hcontexts⟩
      · obtain ⟨hguarded, hnot, hproc⟩ := hcomplete.mp (of_decide_eq_true hdenied)
        refine ⟨hguarded, hnot, fun hin => ?_⟩
        rw [hinv.world.isProtectedProcess_eq_true hp hrun hin] at hproc
        cases hproc
      · exact decide_eq_true (hcomplete.mpr
          ⟨hguarded, hnot, hinv.world.isProtectedProcess_eq_false hp hrun hunprotected⟩)
  · refine Yields.of_eq_ok (fileOperation_of_not_user huser ioStatus)
      ⟨fun hdenied => ?_, fun hguarded _ _ => ?_, hinv.contexts⟩
    · cases hdenied
    · exact absurd ⟨hguarded.file, hguarded.requestor⟩ huser

/-- Process 4 deletes a file of the protected directory. -/
def deleteOnClose : FileRequest where
  hasFileObject := true
  requestorMode := .userMode
  previousMode := .userMode
  currentPid := 4
  filePath := .of [69, 92, 97]
  parameters := .create 0x00010000#32 0x01001000#32

/-- A freshly loaded driver denies this. -/
theorem denied_deleteOnClose : ∃ result : Bool × FltState,
    (⟨World.loaded, []⟩ : FltState).fileOperation ⟨64, by decide⟩ deleteOnClose
      STATUS_SUCCESS = .ok result ∧ result.1 = true := by
  have hreach : FltReachable ⟨64, by decide⟩ ⟨World.loaded, []⟩ := .start fun _ => rfl
  have hguarded : deleteOnClose.Guarded World.loaded.globals :=
    ⟨rfl, rfl, rfl, rfl, ⟨[69, 92], [97], List.mem_cons_self, rfl⟩,
      show ¬ deleteOnClose.create.ReadOnly by decide⟩
  have hresolved : deleteOnClose.Resolved := fun fileInformationClass h => nomatch h
  have hmissed : ¬ deleteOnClose.Missed World.loaded.globals.protectedDirList :=
    show ¬ ¬ deleteOnClose.create.BitTestSuffices by decide
  have hyields := (hreach.denied deleteOnClose hresolved STATUS_SUCCESS rfl rfl).mono
    fun result h => h.2.1 hguarded hmissed (by decide)
  exact ⟨_, rfl, hyields.value rfl⟩

end KernelEventsTrace.Driver.MiniFs
