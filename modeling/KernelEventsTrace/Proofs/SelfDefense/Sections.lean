import KernelEventsTrace.Proofs.SelfDefense.Mutexes

/-!
# `KernelEventsTrace.Proofs.SelfDefense.Sections`: a section of a callback is one step

A schedule of single actions, where a call waits for a mutex that another one has, ends as a
schedule of `Calls` ends, where a section of `kProcessMapMutex` is one step. `Point.callback` is
what is left of a callback at a point.
-/

set_option autoImplicit false

namespace KernelEventsTrace.Driver.SelfDefense

open Locking
open KernelEventsTrace.Driver.Std (KString WChar Fault Heap Map Iterator)

/-! ### What is left at a point -/

/-- The caller goes on behind `GetProcessImageName`. -/
def ImageCaller.callback (pid : Pid) (path : KString WChar) : ImageCaller → Callback Answer
  | .creation currentPid startTime => .notifyPath currentPid pid startTime path
  | .debugMessage answer => pure answer

/-- The actions from the point on. -/
def Point.callback : Point → Callback Answer
  | .imageFind query pid caller => do
    caller.callback pid (← Callback.getProcessImageName query pid)
  | .imageTest query pid caller it => do caller.callback pid (← Callback.imageName query pid it)
  | .imageDeref pid caller it => do
    caller.callback pid (← Callback.entry it).processPath.copy
  | .creationParent currentPid pid startTime path => do
    let isProtected ← guarded .processMapMutex (Callback.parentProtected currentPid)
    Callback.notifyProtected pid startTime path isProtected
  | .creationInsert pid startTime path isProtected =>
    .notifyProtected pid startTime path isProtected
  | .termination pid => .notifyTermination pid
  | .lookup query pid => do
    let _ ← Callback.isProtectedProcess query pid
    return .notified
  | .createFile query data => .preCreateFile query data
  | .setInformationFile query data => .preSetInformationFile query data
  | .handleSource query op => .preObCallback query op
  | .handleTarget query op => .checkTarget query op
  | .handleFind op => do Callback.checkStart op (← Callback.find op.object.targetPid)
  | .handleTest op it => .checkStart op it
  | .handleDeref op it => do
    if op.currTime - (← Callback.entry it).startTime < 5000000#64 then
      return .access op.desiredAccess
    else return .access (restrictAccess op.object op.desiredAccess)
  | .done answer => pure answer

/-- The point at which a callback starts has the whole program before it. -/
theorem Notice.start_callback (notice : Notice) : notice.start.callback = notice.callback := by
  cases notice <;> rfl

variable {dirs : List (KString WChar)} {enable : Bool} {m : Map Pid ProcessInfo}

/-! ### The sections alone -/

section
variable {α : Type}

/-- What a section does alone. -/
def alone (dirs : List (KString WChar)) (enable : Bool) (x : Callback α)
    (m : Map Pid ProcessInfo) : Except Fault (α × Map Pid ProcessInfo) :=
  x.eval (Access.exec dirs enable) m

/-- A comparison with the end of the map. -/
theorem alone_isEntry (it : Iterator) (f : Bool → Callback α) :
    alone dirs enable (Callback.isEntry it >>= f) m =
      alone dirs enable (f (decide (it ≠ m.endIt))) m := rfl

/-- The test of a path changes nothing. -/
theorem alone_isInProtectedDirectory (path : KString WChar) (f : Bool → Callback α) :
    alone dirs enable (Callback.isInProtectedDirectory path >>= f) m =
      alone dirs enable (f (isInProtectedDirectory dirs path)) m := rfl

/-- `Find` leaves the map as it is. -/
theorem alone_find (pid : Pid) (f : Iterator → Callback α) :
    alone dirs enable (Callback.find pid >>= f) m =
      m.find pidLess pid >>= fun it => alone dirs enable (f it) m := by
  refine (eval_call (Access.exec dirs enable) (Access.find pid) f m).trans ?_
  rw [Access.exec]
  cases m.find pidLess pid <;> rfl

/-- A read of the entry at an iterator. -/
theorem alone_entry (it : Iterator) (f : ProcessInfo → Callback α) :
    alone dirs enable (Callback.entry it >>= f) m =
      m.node it >>= fun n => alone dirs enable (f n.val) m := by
  refine (eval_call (Access.exec dirs enable) (Access.entry it) f m).trans ?_
  rw [Access.exec]
  cases m.node it <;> rfl

/-- `Insert` on the map. -/
theorem alone_insert (pid : Pid) (info : ProcessInfo) (f : Unit → Callback α) :
    alone dirs enable (Callback.insert pid info >>= f) m =
      m.insert pidLess pid info >>= fun r => alone dirs enable (f ()) r.2.2 := by
  refine (eval_call (Access.exec dirs enable) (Access.insert pid info) f m).trans ?_
  rw [Access.exec]
  cases m.insert pidLess pid info <;> rfl

/-- `Erase` on the map. -/
theorem alone_erase (pid : Pid) (f : Unit → Callback α) :
    alone dirs enable (Callback.erase pid >>= f) m =
      m.erase pidLess pid >>= fun r => alone dirs enable (f ()) r.2 := by
  refine (eval_call (Access.exec dirs enable) (Access.erase pid) f m).trans ?_
  rw [Access.exec]
  cases m.erase pidLess pid <;> rfl

end

/-- An outcome on the map as one on the static variables. -/
def onShared (dirs : List (KString WChar)) (enable : Bool) {α : Type}
    (x : Except Fault (α × Map Pid ProcessInfo)) : Except Fault (α × Shared) :=
  x.map fun r => (r.1, ⟨r.2, dirs, enable⟩)

/-- A fault of the first action is the fault of the whole. -/
theorem onShared_bind {α β : Type} (x : Except Fault β)
    (f : β → Except Fault (α × Map Pid ProcessInfo)) :
    onShared dirs enable (x >>= f) = x >>= fun b => onShared dirs enable (f b) := by
  cases x <;> rfl

/-- A branch stays a branch. -/
theorem onShared_ite {α : Type} (c : Prop) [Decidable c] (x y : Callback α) :
    onShared dirs enable (alone dirs enable (if c then x else y) m) =
      if c then onShared dirs enable (alone dirs enable x m)
      else onShared dirs enable (alone dirs enable y m) := by
  split <;> rfl

/-- `GetProcessImageName` alone is the function on the shared state. -/
theorem getProcessImageName_eq (query : Pid → ImageQuery) (pid : Pid) {α : Type}
    (f : KString WChar → Callback α) :
    alone dirs enable (Callback.getProcessImageName query pid >>= f) m =
      Shared.getProcessImageName ⟨m, dirs, enable⟩ query pid >>= fun path =>
        alone dirs enable (f path) m := by
  unfold Shared.getProcessImageName
  show alone dirs enable
    (Callback.find pid >>= fun it => Callback.imageName query pid it >>= f) m = _
  rw [alone_find, bind_assoc]
  refine bind_congr fun it => ?_
  show alone dirs enable (Callback.isEntry it >>= fun isEntry =>
    (if isEntry = true then _ else _) >>= f) m = _
  rw [alone_isEntry]
  by_cases h : it ≠ m.endIt
  · rw [if_pos (decide_eq_true h), if_pos h]
    show alone dirs enable (Callback.entry it >>= fun info => f info.processPath.copy) m = _
    rw [alone_entry]
    cases m.node it <;> rfl
  · rw [if_neg (by simpa using h), if_neg h]
    rfl

/-- The section of `IsProtectedProcess` is the atomic one. -/
theorem isProtectedProcess_eq (query : Pid → ImageQuery) (pid : Pid) :
    Shared.isProtectedProcess ⟨m, dirs, enable⟩ query pid =
      onShared dirs enable (alone dirs enable (Callback.lookup query pid) m) := by
  unfold Shared.isProtectedProcess Callback.lookup
  rw [alone_find, onShared_bind]
  refine bind_congr fun it => ?_
  rw [alone_isEntry, onShared_ite]
  simp only [decide_eq_true_eq]
  refine ite_congr rfl (fun _ => ?_) fun _ => ?_
  · rw [alone_entry, onShared_bind]
    cases hn : m.node it with
    | error fault => rfl
    | ok n =>
      show _ = onShared dirs enable
        (alone dirs enable (if n.val.isProtected = false then _ else _) m)
      rw [onShared_ite]
      refine ite_congr rfl (fun _ => ?_) fun _ => rfl
      rw [alone_entry, hn]
      rfl
  · rw [getProcessImageName_eq, onShared_bind]
    refine bind_congr fun path => ?_
    rw [alone_isInProtectedDirectory, alone_insert, onShared_bind]
    unfold Shared.insert
    cases m.insert pidLess pid ⟨pid, path.copy, isInProtectedDirectory dirs path, 0⟩ <;> rfl

/-- The section that finds the parent is the atomic one. -/
theorem parentProtected_eq (pid : Pid) :
    alone dirs enable (Callback.parentProtected pid) m =
      (Shared.parentProtected ⟨m, dirs, enable⟩ pid).map fun isProtected => (isProtected, m) := by
  unfold Shared.parentProtected Callback.parentProtected
  rw [alone_find]
  cases m.find pidLess pid with
  | error fault => rfl
  | ok it =>
    show alone dirs enable (Callback.isEntry it >>= fun isEntry =>
      if isEntry = true then _ else _) m = _
    rw [alone_isEntry]
    by_cases h : it ≠ m.endIt
    · rw [if_pos (decide_eq_true h)]
      show _ = Except.map _ (if it ≠ m.endIt then _ else _)
      rw [if_pos h]
      show alone dirs enable (Callback.entry it >>= fun info => .done info.isProtected) m = _
      rw [alone_entry]
      cases m.node it <;> rfl
    · rw [if_neg (by simpa using h)]
      show _ = Except.map _ (if it ≠ m.endIt then _ else _)
      rw [if_neg h]
      rfl

/-- The section of a termination is the atomic one. -/
theorem terminate_eq (pid : Pid) :
    Shared.terminate ⟨m, dirs, enable⟩ pid =
      (alone dirs enable (Callback.terminate pid) m).map fun r => ⟨r.2, dirs, enable⟩ := by
  unfold Shared.terminate Callback.terminate
  rw [alone_find]
  cases m.find pidLess pid with
  | error fault => rfl
  | ok it =>
    have herase : ∀ m : Map Pid ProcessInfo, alone dirs enable (Callback.erase pid) m =
        m.erase pidLess pid >>= fun r => .ok ((), r.2) := fun m => alone_erase pid .done
    show _ = Except.map _ (alone dirs enable (Callback.isEntry it >>= fun isEntry =>
      if isEntry = true then _ else _) m)
    rw [alone_isEntry]
    by_cases h : it ≠ m.endIt
    · rw [if_pos (decide_eq_true h)]
      show (if it ≠ m.endIt then _ else _) = Except.map _ (alone dirs enable
        (Callback.entry it >>= fun _ => Callback.erase pid) m)
      rw [if_pos h, alone_entry, herase]
      cases m.node it with
      | error fault => rfl
      | ok n => cases m.erase pidLess pid <;> rfl
    · rw [if_neg (by simpa using h), herase]
      show (if it ≠ m.endIt then _ else _) = _
      rw [if_neg h]
      cases m.erase pidLess pid <;> rfl

/-- The section of an insertion is the atomic one. -/
theorem insert_eq (pid : Pid) (info : ProcessInfo) :
    Shared.insert ⟨m, dirs, enable⟩ pid info =
      (alone dirs enable (Callback.insert pid info) m).map fun r => ⟨r.2, dirs, enable⟩ := by
  have hinsert : alone dirs enable (Callback.insert pid info) m =
      m.insert pidLess pid info >>= fun r => .ok ((), r.2.2) := alone_insert pid info .done
  rw [hinsert, Shared.insert]
  cases m.insert pidLess pid info <;> rfl

/-! ### One step -/

namespace Point

/-- The call has returned if nothing is left of it. -/
def Settled (dirs : List (KString WChar)) (enable : Bool) (p : Point) : Prop :=
  ∀ a, (sections dirs enable).settle p.callback = .done a → p = .done a

/-- A step from the point is the next visible step of what is left. -/
def Shows (dirs : List (KString WChar)) (enable : Bool) (m : Map Pid ProcessInfo) (p : Point) :
    Prop :=
  ∃ (α : Type) (x : Except Fault (α × Map Pid ProcessInfo)) (next : α → Point),
    p.step ⟨m, dirs, enable⟩ = x.map (fun r => (⟨r.2, dirs, enable⟩, next r.1)) ∧
    (sections dirs enable).atomicStep ((sections dirs enable).settle p.callback) m =
      x.map (fun r => ((sections dirs enable).settle (next r.1).callback, r.2)) ∧
    ∀ a, (next a).Settled dirs enable

variable {p : Point} {α : Type}

/-- A point in front of a section. -/
theorem shows_section {body : Callback α} {f : α → Callback Answer} {n : ℕ} (next : α → Point)
    (hbody : Callback.Body dirs enable n body)
    (hcallback : (sections dirs enable).settle p.callback =
      (sections dirs enable).settle ((guarded .processMapMutex body).andThen f))
    (hstep : p.step ⟨m, dirs, enable⟩ =
      (alone dirs enable body m).map fun r => (⟨r.2, dirs, enable⟩, next r.1))
    (hnext : ∀ a, (sections dirs enable).settle (f a) =
      (sections dirs enable).settle (next a).callback)
    (hsettled : ∀ a, (next a).Settled dirs enable) : p.Shows dirs enable m := by
  refine ⟨α, alone dirs enable body m, next, hstep, ?_, hsettled⟩
  have hatomic := Sectioned.atomicStep_guarded (S := sections dirs enable) hbody.part f m
  rw [hcallback]
  refine hatomic.trans ?_
  simp only [hnext]
  rfl

/-- A point in front of an operation outside of the sections. -/
theorem shows_read (access : Access) {f : access.Result → Callback Answer}
    (next : access.Result → Point) (hvisible : access.constant dirs enable = none)
    (hcallback : p.callback = .call access f)
    (hstep : p.step ⟨m, dirs, enable⟩ =
      (access.exec dirs enable m).map fun r => (⟨r.2, dirs, enable⟩, next r.1))
    (hnext : ∀ r, (sections dirs enable).settle (f r) =
      (sections dirs enable).settle (next r).callback)
    (hsettled : ∀ r, (next r).Settled dirs enable) : p.Shows dirs enable m := by
  refine ⟨access.Result, access.exec dirs enable m, next, hstep, ?_, hsettled⟩
  rw [hcallback, Sectioned.settle_call (S := sections dirs enable) hvisible,
    Sectioned.atomicStep_call]
  simp only [hnext]
  rfl

/-! ### The points -/

/-- Nothing is left to do in front of a section. -/
theorem settled_done (a : Answer) : (done a).Settled dirs enable := by
  intro a' h
  rw [Locking.done.inj h]

/-- A point in front of a section has not returned. -/
theorem settled_section {body : Callback α} {f : α → Callback Answer}
    (h : p.callback = (guarded .processMapMutex body).andThen f) : p.Settled dirs enable := by
  intro a ha
  rw [h, guarded_andThen] at ha
  cases ha

/-- A point in front of an operation has not returned. -/
theorem settled_read (access : Access) {f : access.Result → Callback Answer}
    (hvisible : access.constant dirs enable = none) (h : p.callback = .call access f) :
    p.Settled dirs enable := by
  intro a ha
  rw [h, Sectioned.settle_call (S := sections dirs enable) hvisible] at ha
  cases ha

/-- No mutex is locked for an answer. -/
theorem settled_answerFile (query : Pid → ImageQuery) (currentPid : Pid) (result : PreopResult) :
    (answerFile query currentPid result).Settled dirs enable := by
  cases result with
  | complete status => exact settled_read (.find currentPid) rfl rfl
  | _ => exact settled_done _

/-- The point behind a lookup of an image is one in front of a section, or the end. -/
theorem settled_resume (path : KString WChar) (pid : Pid) (caller : ImageCaller) :
    (caller.resume ⟨m, dirs, enable⟩ pid path).Settled dirs enable := by
  cases caller with
  | creation currentPid startTime =>
    show Settled dirs enable (if isInProtectedDirectory dirs path = false then _ else _)
    split
    · exact settled_section rfl
    · exact settled_section rfl
  | debugMessage answer => exact settled_done answer

/-- How the caller of `GetProcessImageName` goes on. -/
theorem settle_resume (path : KString WChar) (pid : Pid) (caller : ImageCaller) :
    (sections dirs enable).settle (caller.callback pid path) =
      (sections dirs enable).settle (caller.resume ⟨m, dirs, enable⟩ pid path).callback := by
  cases caller with
  | creation currentPid startTime =>
    show (sections dirs enable).settle (if isInProtectedDirectory dirs path = false then _ else _) =
      (sections dirs enable).settle
        (if isInProtectedDirectory dirs path = false then _ else _ : Point).callback
    split <;> rfl
  | debugMessage answer => rfl

/-- The step that finds the entry shows its action. -/
theorem shows_imageFind (query : Pid → ImageQuery) (pid : Pid) (caller : ImageCaller) :
    (imageFind query pid caller).Shows dirs enable m := by
  refine shows_read (.find pid) (imageTest query pid caller) rfl rfl ?_ (fun _ => rfl)
    fun it => settled_read (.isEntry it) rfl rfl
  rw [step, Access.exec]
  cases m.find pidLess pid <;> rfl

/-- The step that compares the iterator with the end. -/
theorem shows_imageTest (query : Pid → ImageQuery) (pid : Pid) (caller : ImageCaller)
    (it : Iterator) : (imageTest query pid caller it).Shows dirs enable m := by
  let next (isEntry : Bool) : Point :=
    if isEntry = true then imageDeref pid caller it
    else caller.resume ⟨m, dirs, enable⟩ pid (query pid).imageName
  refine shows_read (.isEntry it) next rfl rfl ?_ (fun (isEntry : Bool) => ?_)
    fun (isEntry : Bool) => ?_
  · rw [step, Access.exec]
    by_cases h : it ≠ m.endIt
    · rw [if_pos h, decide_eq_true h]
      rfl
    · rw [if_neg h, decide_eq_false h]
      rfl
  · cases isEntry with
    | true => rfl
    | false => exact settle_resume (query pid).imageName pid caller
  · cases isEntry with
    | true => exact settled_read (.entry it) rfl rfl
    | false => exact settled_resume (query pid).imageName pid caller

/-- The step that reads the entry. -/
theorem shows_imageDeref (pid : Pid) (caller : ImageCaller) (it : Iterator) :
    (imageDeref pid caller it).Shows dirs enable m := by
  let next (info : ProcessInfo) : Point :=
    caller.resume ⟨m, dirs, enable⟩ pid info.processPath.copy
  refine shows_read (.entry it) next rfl rfl ?_ (fun (info : ProcessInfo) => ?_)
    fun (info : ProcessInfo) => ?_
  · rw [step, Access.exec]
    cases m.node it <;> rfl
  · exact settle_resume info.processPath.copy pid caller
  · exact settled_resume info.processPath.copy pid caller

/-- The step that finds the parent, with its section. -/
theorem shows_creationParent (currentPid pid : Pid) (startTime : Time) (path : KString WChar) :
    (creationParent currentPid pid startTime path).Shows dirs enable m := by
  refine shows_section (creationInsert pid startTime path)
    (Callback.body_parentProtected currentPid) rfl ?_ (fun _ => rfl) fun _ => settled_section rfl
  rw [step, parentProtected_eq]
  cases Shared.parentProtected ⟨m, dirs, enable⟩ currentPid <;> rfl

/-- The step that inserts the new entry. -/
theorem shows_creationInsert (pid : Pid) (startTime : Time) (path : KString WChar)
    (isProtected : Bool) : (creationInsert pid startTime path isProtected).Shows dirs enable m := by
  refine shows_section (fun _ => done .notified) (Callback.body_insert (n := 0) pid _) rfl ?_
    (fun _ => rfl) fun _ => settled_done _
  rw [step, insert_eq]
  cases alone dirs enable (Callback.insert pid _) m <;> rfl

/-- The step of a termination notification. -/
theorem shows_termination (pid : Pid) : (termination pid).Shows dirs enable m := by
  refine shows_section (fun _ => done .notified) (Callback.body_terminate pid) rfl ?_
    (fun _ => rfl) fun _ => settled_done _
  rw [step, terminate_eq]
  cases alone dirs enable (Callback.terminate pid) m <;> rfl

/-- The step of a lookup by itself. -/
theorem shows_lookup (query : Pid → ImageQuery) (pid : Pid) :
    (lookup query pid).Shows dirs enable m := by
  refine shows_section (fun _ => done .notified) (Callback.body_lookup (quiet_of query) pid) rfl ?_
    (fun _ => rfl) fun _ => settled_done _
  rw [step, isProtectedProcess_eq]
  cases alone dirs enable (Callback.lookup query pid) m <;> rfl

/-! ### The file callbacks -/

/-- What a file callback does behind the section of `IsProtectedProcess`. -/
def nextFile (dirs : List (KString WChar)) (query : Pid → ImageQuery) (currentPid : Pid)
    (filePath : KString WChar) (result : PreopResult) (isProtected : Bool) : Point :=
  if isProtected = true then .done (.file .successNoCallback)
  else if isInProtectedDirectory dirs filePath = false then .done (.file .successNoCallback)
  else .answerFile query currentPid result

/-- The file callbacks share the section of `IsProtectedProcess`. -/
theorem guardFile_eq (query : Pid → ImageQuery) (currentPid : Pid) (filePath : KString WChar)
    (result : PreopResult) :
    Shared.guardFile ⟨m, dirs, enable⟩ query currentPid filePath result =
      (alone dirs enable (Callback.lookup query currentPid) m).map fun r =>
        (⟨r.2, dirs, enable⟩, nextFile dirs query currentPid filePath result r.1) := by
  unfold Shared.guardFile
  rw [isProtectedProcess_eq]
  cases alone dirs enable (Callback.lookup query currentPid) m with
  | error fault => rfl
  | ok r =>
    show (if r.1 = true then _ else _) = Except.ok (_, nextFile _ _ _ _ _ r.1)
    unfold nextFile
    split
    · rfl
    · show (if isInProtectedDirectory dirs filePath = false then _ else _) = _
      split <;> rfl

/-- The point that answers has the program of the answer before it. -/
theorem callback_answerFile (query : Pid → ImageQuery) (currentPid : Pid) (result : PreopResult) :
    (Point.answerFile query currentPid result).callback =
      Callback.answerFile query currentPid result := by
  cases result <;> rfl

/-- A file callback in front of the section of `IsProtectedProcess`. -/
theorem shows_guardFile {query : Pid → ImageQuery} {currentPid : Pid} {filePath : KString WChar}
    {check : Callback Answer} {result : PreopResult}
    (hcallback : (sections dirs enable).settle p.callback =
      (sections dirs enable).settle (Callback.guardFile query currentPid filePath check))
    (hstep : p.step ⟨m, dirs, enable⟩ =
      Shared.guardFile ⟨m, dirs, enable⟩ query currentPid filePath result)
    (hcheck : (sections dirs enable).settle check =
      (sections dirs enable).settle (Callback.answerFile query currentPid result)) :
    p.Shows dirs enable m := by
  refine shows_section (nextFile dirs query currentPid filePath result)
    (Callback.body_lookup (quiet_of query) currentPid) hcallback (hstep.trans (guardFile_eq ..))
    (fun isProtected => ?_) fun isProtected => ?_
  · -- A protected process returns at once. For any other the path decides.
    cases isProtected with
    | true => rfl
    | false =>
      show (sections dirs enable).settle
        (if isInProtectedDirectory dirs filePath = false then _ else check) = _
      unfold nextFile
      by_cases h : isInProtectedDirectory dirs filePath = false
      · rw [if_pos h, if_neg nofun, if_pos h]
        rfl
      · rw [if_neg h, if_neg nofun, if_neg h, callback_answerFile]
        exact hcheck
  · unfold nextFile
    split_ifs
    · exact settled_done _
    · exact settled_done _
    · exact settled_answerFile query currentPid result

/-- The check of `PreSetInformationFile` does nothing that is visible but its answer. -/
theorem settle_checkSetInformation (query : Pid → ImageQuery) (data : SetInformationRequest) :
    (sections dirs enable).settle (Callback.checkSetInformation query data) =
      (sections dirs enable).settle
        (Callback.answerFile query data.currentPid (checkSetInformation dirs data)) := by
  unfold Callback.checkSetInformation checkSetInformation
  split_ifs
  · rfl
  · cases data.destination with
    | none => rfl
    | some name =>
      show (sections dirs enable).settle
        (if isInProtectedDirectory dirs (.of name) = true then _ else _) =
          (sections dirs enable).settle (Callback.answerFile query data.currentPid
            (if isInProtectedDirectory dirs (.of name) = true then _ else _))
      split <;> rfl
  · rfl

/-- The first tests of a file callback, which lock nothing. -/
theorem settle_enableProtectFile (dirs : List (KString WChar)) (enable : Bool)
    (requestorMode previousMode : Mode) (late : Callback Answer) :
    (sections dirs enable).settle (Callback.enableProtectFile >>= fun isEnabled =>
        if isEnabled = false then .done (.file .successNoCallback)
        else if requestorMode = .kernelMode then .done (.file .successNoCallback)
        else if previousMode = .kernelMode then .done (.file .successNoCallback)
        else late) =
      (sections dirs enable).settle
        (if enable = false ∨ requestorMode = .kernelMode ∨ previousMode = .kernelMode then
          .done (.file .successNoCallback)
        else late) := by
  show (sections dirs enable).settle (if enable = false then _ else if _ then _ else _) = _
  by_cases h : enable = false
  · rw [if_pos h, if_pos (.inl h)]
  · by_cases h' : requestorMode = .kernelMode
    · rw [if_neg h, if_pos h', if_pos (.inr (.inl h'))]
    · rw [if_neg h, if_neg h', if_congr ((or_iff_right h).trans (or_iff_right h')) rfl rfl]

/-- The call returns before its first visible action, or goes on as `late` and `next` say. -/
def EarlyOr (dirs : List (KString WChar)) (enable : Bool) (m : Map Pid ProcessInfo) (p : Point)
    (late : Callback Answer) (next : Except Fault (Shared × Point)) : Prop :=
  (∃ a, (sections dirs enable).settle p.callback = .done a ∧
    p.step ⟨m, dirs, enable⟩ = .ok (⟨m, dirs, enable⟩, .done a)) ∨
  ((sections dirs enable).settle p.callback = (sections dirs enable).settle late ∧
    p.step ⟨m, dirs, enable⟩ = next)

/-- A call in front of a section has not answered, so it goes on as `late` and `next` say. -/
theorem EarlyOr.late {late : Callback Answer} {next : Except Fault (Shared × Point)}
    (h : EarlyOr dirs enable m p late next) (hsettled : p.Settled dirs enable)
    (hp : ∀ a, p ≠ .done a) :
    (sections dirs enable).settle p.callback = (sections dirs enable).settle late ∧
      p.step ⟨m, dirs, enable⟩ = next := by
  rcases h with ⟨a, ha, -⟩ | h
  · exact absurd (hsettled a ha) (hp a)
  · exact h

/-- If the call returns at once, then so does its step. -/
theorem EarlyOr.early {body : Callback α} {f : α → Callback Answer}
    {next : Except Fault (Shared × Point)} {a : Answer}
    (h : EarlyOr dirs enable m p ((guarded .processMapMutex body).andThen f) next)
    (ha : (sections dirs enable).settle p.callback = .done a) :
    p.step ⟨m, dirs, enable⟩ = .ok (⟨m, dirs, enable⟩, .done a) := by
  rcases h with ⟨a', ha', hstep⟩ | ⟨hlate, -⟩
  · rw [Locking.done.inj (ha.symm.trans ha')]
    exact hstep
  · rw [ha, guarded_andThen] at hlate
    cases hlate

/-- A file callback in front of its first test. -/
theorem earlyOr_file {requestorMode previousMode : Mode} {late : Callback Answer}
    {next : Except Fault (Shared × Point)}
    (hcallback : p.callback = Callback.enableProtectFile >>= fun isEnabled =>
      if isEnabled = false then .done (.file .successNoCallback)
      else if requestorMode = .kernelMode then .done (.file .successNoCallback)
      else if previousMode = .kernelMode then .done (.file .successNoCallback)
      else late)
    (hstep : p.step ⟨m, dirs, enable⟩ =
      if enable = false ∨ requestorMode = .kernelMode ∨ previousMode = .kernelMode then
        .ok (⟨m, dirs, enable⟩, .done (.file .successNoCallback))
      else next) : EarlyOr dirs enable m p late next := by
  have hsettle := settle_enableProtectFile dirs enable requestorMode previousMode late
  rw [← hcallback] at hsettle
  by_cases hearly : enable = false ∨ requestorMode = .kernelMode ∨ previousMode = .kernelMode
  · rw [if_pos hearly] at hsettle hstep
    exact .inl ⟨_, hsettle, hstep⟩
  · rw [if_neg hearly] at hsettle hstep
    exact .inr ⟨hsettle, hstep⟩

/-- `PreCreateFile` answers early, or goes on to the lookup of the process. -/
theorem earlyOr_createFile (query : Pid → ImageQuery) (data : CreateRequest) :
    EarlyOr dirs enable m (createFile query data)
      (Callback.guardFile query data.currentPid data.filePath
        (Callback.answerFile query data.currentPid (checkCreate data.desiredAccess data.options)))
      (Shared.guardFile ⟨m, dirs, enable⟩ query data.currentPid data.filePath
        (checkCreate data.desiredAccess data.options)) :=
  earlyOr_file rfl rfl

/-- `PreSetInformationFile` answers early, or goes on to the lookup of the process. -/
theorem earlyOr_setInformationFile (query : Pid → ImageQuery) (data : SetInformationRequest) :
    EarlyOr dirs enable m (setInformationFile query data)
      (Callback.guardFile query data.currentPid data.filePath
        (Callback.checkSetInformation query data))
      (Shared.guardFile ⟨m, dirs, enable⟩ query data.currentPid data.filePath
        (checkSetInformation dirs data)) :=
  earlyOr_file rfl rfl

/-! ### The handle callback -/

/-- The step that reads the start time of the target. -/
theorem shows_handleDeref (op : ObRequest) (it : Iterator) :
    (handleDeref op it).Shows dirs enable m := by
  let next (info : ProcessInfo) : Point := .done (.access
    (if op.currTime - info.startTime < 5000000#64 then op.desiredAccess
    else restrictAccess op.object op.desiredAccess))
  refine shows_read (.entry it) next rfl rfl ?_ (fun (info : ProcessInfo) => ?_)
    fun _ => settled_done _
  · rw [step, Access.exec]
    cases m.node it with
    | error fault => rfl
    | ok n =>
      show (if op.currTime - n.val.startTime < 5000000#64 then _ else _) =
        Except.ok (_, done (.access (if op.currTime - n.val.startTime < 5000000#64 then _ else _)))
      split <;> rfl
  · show (sections dirs enable).settle
      (if op.currTime - info.startTime < 5000000#64 then _ else _) = Locking.done (Answer.access
        (if op.currTime - info.startTime < 5000000#64 then _ else _))
    split <;> rfl

/-- The step that compares the iterator of the target with the end. -/
theorem shows_handleTest (op : ObRequest) (it : Iterator) :
    (handleTest op it).Shows dirs enable m := by
  let next (isEntry : Bool) : Point :=
    if isEntry = true then handleDeref op it
    else .done (.access (restrictAccess op.object op.desiredAccess))
  refine shows_read (.isEntry it) next rfl rfl ?_ (fun (isEntry : Bool) => ?_)
    fun (isEntry : Bool) => ?_
  · rw [step, Access.exec]
    by_cases h : it ≠ m.endIt
    · rw [if_pos h, decide_eq_true h]
      rfl
    · rw [if_neg h, decide_eq_false h]
      rfl
  · cases isEntry <;> rfl
  · cases isEntry with
    | true => exact settled_read (.entry it) rfl rfl
    | false => exact settled_done _

/-- The step that finds the target again. -/
theorem shows_handleFind (op : ObRequest) : (handleFind op).Shows dirs enable m := by
  refine shows_read (.find op.object.targetPid) (handleTest op) rfl rfl ?_ (fun _ => rfl)
    fun it => settled_read (.isEntry it) rfl rfl
  rw [step, Access.exec]
  cases m.find pidLess op.object.targetPid <;> rfl

/-- The step that asks whether the target is protected. -/
theorem shows_handleTarget (query : Pid → ImageQuery) (op : ObRequest) :
    (handleTarget query op).Shows dirs enable m := by
  let next (isProtected : Bool) : Point :=
    if isProtected = true then handleFind op else .done (.access op.desiredAccess)
  refine shows_section next (Callback.body_lookup (quiet_of query) op.object.targetPid) rfl ?_
    (fun isProtected => ?_) fun isProtected => ?_
  · rw [step, isProtectedProcess_eq]
    cases alone dirs enable (Callback.lookup query op.object.targetPid) m with
    | error fault => rfl
    | ok r =>
      show (if (!r.1) = true then _ else _) = Except.ok (_, if r.1 = true then _ else _)
      cases r.1 <;> rfl
  · cases isProtected <;> rfl
  · cases isProtected with
    | true => exact settled_read (.find op.object.targetPid) rfl rfl
    | false => exact settled_done _

/-- What `PreObCallback` does behind the section for the source. -/
def nextSource (query : Pid → ImageQuery) (op : ObRequest) (isProtected : Bool) : Point :=
  if isProtected = true then .done (.access op.desiredAccess) else .handleTarget query op

/-- `PreObCallback` passes the request early, or goes on to the lookup of the source. -/
theorem earlyOr_handleSource (query : Pid → ImageQuery) (op : ObRequest) :
    EarlyOr dirs enable m (handleSource query op)
      (Callback.isProtectedProcess query op.sourcePid >>= fun isProtected =>
        if isProtected = true then .done (.access op.desiredAccess)
        else Callback.checkTarget query op)
      ((alone dirs enable (Callback.lookup query op.sourcePid) m).map fun r =>
        (⟨r.2, dirs, enable⟩, nextSource query op r.1)) := by
  have hcallback : (handleSource query op).callback =
      if op.kernelHandle ∨ op.previousMode = .kernelMode then .done (.access op.desiredAccess)
      else if op.sourcePid = op.object.targetPid then .done (.access op.desiredAccess)
      else Callback.isProtectedProcess query op.sourcePid >>= fun isProtected =>
        if isProtected = true then .done (.access op.desiredAccess)
        else Callback.checkTarget query op := rfl
  by_cases hmode : op.kernelHandle ∨ op.previousMode = .kernelMode
  · rw [if_pos hmode] at hcallback
    refine .inl ⟨_, congrArg (sections dirs enable).settle hcallback, ?_⟩
    rw [step, if_pos hmode]
  · by_cases hself : op.sourcePid = op.object.targetPid
    · rw [if_neg hmode, if_pos hself] at hcallback
      refine .inl ⟨_, congrArg (sections dirs enable).settle hcallback, ?_⟩
      rw [step, if_neg hmode, if_pos hself]
    · rw [if_neg hmode, if_neg hself] at hcallback
      refine .inr ⟨congrArg (sections dirs enable).settle hcallback, ?_⟩
      rw [step, if_neg hmode, if_neg hself, isProtectedProcess_eq]
      cases alone dirs enable (Callback.lookup query op.sourcePid) m with
      | error fault => rfl
      | ok r =>
        show (if r.1 = true then _ else _) = Except.ok (_, if r.1 = true then _ else _)
        cases r.1 <;> rfl

/-! ### All points -/

/-- What the next step of a call shows, from any point. -/
theorem shows (hsettled : p.Settled dirs enable) (hp : ∀ a, p ≠ .done a) :
    p.Shows dirs enable m := by
  cases p with
  | imageFind query pid caller => exact shows_imageFind query pid caller
  | imageTest query pid caller it => exact shows_imageTest query pid caller it
  | imageDeref pid caller it => exact shows_imageDeref pid caller it
  | creationParent currentPid pid startTime path =>
    exact shows_creationParent currentPid pid startTime path
  | creationInsert pid startTime path isProtected =>
    exact shows_creationInsert pid startTime path isProtected
  | termination pid => exact shows_termination pid
  | lookup query pid => exact shows_lookup query pid
  | createFile query data =>
    -- Behind the tests that show nothing, the section of `IsProtectedProcess` comes next.
    obtain ⟨hcallback, hstep⟩ := (earlyOr_createFile query data).late hsettled hp
    exact shows_guardFile hcallback hstep rfl
  | setInformationFile query data =>
    obtain ⟨hcallback, hstep⟩ := (earlyOr_setInformationFile query data).late hsettled hp
    exact shows_guardFile hcallback hstep (settle_checkSetInformation query data)
  | handleSource query op =>
    obtain ⟨hcallback, hstep⟩ := (earlyOr_handleSource query op).late hsettled hp
    refine shows_section (nextSource query op) (Callback.body_lookup (quiet_of query) op.sourcePid)
      hcallback hstep (fun isProtected => ?_) fun isProtected => ?_
    · cases isProtected <;> rfl
    · cases isProtected with
      | true => exact settled_done _
      | false => exact settled_section rfl
  | handleTarget query op => exact shows_handleTarget query op
  | handleFind op => exact shows_handleFind op
  | handleTest op it => exact shows_handleTest op it
  | handleDeref op it => exact shows_handleDeref op it
  | done a => exact absurd rfl (hp a)

/-- A call that returns before its first visible action returns in one step. -/
theorem step_of_settle {a : Answer}
    (h : (sections dirs enable).settle p.callback = .done a) :
    p.step ⟨m, dirs, enable⟩ = .ok (⟨m, dirs, enable⟩, .done a) := by
  cases p with
  | createFile query data => exact (earlyOr_createFile query data).early h
  | setInformationFile query data => exact (earlyOr_setInformationFile query data).early h
  | handleSource query op => exact (earlyOr_handleSource query op).early h
  | done a' => cases h; rfl
  | _ => cases h

end Point

/-! ### Schedules -/

/-- The schedules of sections and of points are at the same place. -/
structure InStep (dirs : List (KString WChar)) (enable : Bool)
    (t : AtomicPool StaticMutex Access.Result (Map Pid ProcessInfo) Answer) (c : Calls) :
    Prop where
  shared : c.shared = ⟨t.shared, dirs, enable⟩
  threads : t.threads = c.points.map fun p => (sections dirs enable).settle p.callback
  settled : ∀ p ∈ c.points, p.Settled dirs enable

namespace InStep

variable {t : AtomicPool StaticMutex Access.Result (Map Pid ProcessInfo) Answer} {c : Calls}

/-- One call goes on in both schedules. -/
theorem set (h : InStep dirs enable t c) (i : ℕ) {p : Point} (hp : p.Settled dirs enable) :
    InStep dirs enable ⟨m, t.threads.set i ((sections dirs enable).settle p.callback)⟩
      ⟨⟨m, dirs, enable⟩, c.points.set i p⟩ := by
  refine ⟨rfl, ?_, fun q hq => ?_⟩
  · rw [List.map_set, ← h.threads]
  · rcases List.mem_or_eq_of_mem_set hq with hq | rfl
    · exact h.settled q hq
    · exact hp

/-- The outcome of a schedule of sections is one of a schedule of points. -/
def Outcome (dirs : List (KString WChar)) (enable : Bool)
    (x : Except Fault (AtomicPool StaticMutex Access.Result (Map Pid ProcessInfo) Answer))
    (y : Except Fault Calls) : Prop :=
  match x with
  | .ok t => ∃ c, y = .ok c ∧ InStep dirs enable t c
  | .error fault => y = .error fault

/-- A step of a section or of an operation is a turn. -/
theorem step (h : InStep dirs enable t c) (i : ℕ) :
    Outcome dirs enable (t.step (sections dirs enable) i) (c.turn (.step i)) := by
  have hthread : t.threads[i]? =
      c.points[i]?.map fun p => (sections dirs enable).settle p.callback := by
    rw [h.threads, List.getElem?_map]
  cases hi : c.points[i]? with
  | none =>
    rw [hi, Option.map_none] at hthread
    simp only [AtomicPool.step, hthread, Calls.turn, hi]
    exact ⟨c, rfl, h⟩
  | some p =>
    rw [hi, Option.map_some] at hthread
    have hsettled := h.settled p (List.mem_of_getElem? hi)
    by_cases hp : ∀ a, p ≠ .done a
    · obtain ⟨α, x, next, hstep, hatomic, hnext⟩ := Point.shows (m := t.shared) hsettled hp
      simp only [AtomicPool.step, hthread, hatomic, Calls.turn, hi, h.shared, hstep]
      cases x with
      | error fault => exact rfl
      | ok r => exact ⟨_, rfl, h.set i (hnext r.1)⟩
    · -- A call that has returned stays as it is.
      obtain ⟨a, rfl⟩ := not_forall_not.mp hp
      simp only [AtomicPool.step, hthread, Calls.turn, hi, h.shared]
      exact ⟨_, rfl, h.set i (Point.settled_done a)⟩

/-- A callback that is called. If it returns before its first visible action, its step is made at
once. -/
theorem start (h : InStep dirs enable t c) (notice : Notice) :
    ∃ turns c', turns.filterMap Turn.called = [notice] ∧ c.run turns = .ok c' ∧
      InStep dirs enable (t.start (sections dirs enable) notice.callback) c' := by
  have hthreads : (t.start (sections dirs enable) notice.callback).threads =
      t.threads ++ [(sections dirs enable).settle notice.start.callback] := by
    rw [Notice.start_callback]
    rfl
  by_cases hearly : ∃ a, (sections dirs enable).settle notice.start.callback = .done a
  · obtain ⟨a, ha⟩ := hearly
    refine ⟨[.call notice, .step c.points.length],
      ⟨c.shared, (c.points ++ [notice.start]).set c.points.length (.done a)⟩, rfl, ?_, ?_⟩
    · have hstep : notice.start.step c.shared = .ok (c.shared, .done a) := by
        rw [h.shared]
        exact Point.step_of_settle ha
      simp only [Calls.run, List.foldlM_cons, List.foldlM_nil, Calls.turn, bind, Except.bind,
        List.getElem?_concat_length, hstep, pure, Except.pure]
    · rw [List.set_append_right _ _ (Nat.le_refl _), Nat.sub_self, List.set_cons_zero]
      refine ⟨h.shared, ?_, fun p hp => ?_⟩
      · rw [hthreads, ha, List.map_append, ← h.threads]
        rfl
      · rcases List.mem_append.mp hp with hp | hp
        · exact h.settled p hp
        · rw [List.mem_singleton.mp hp]
          exact Point.settled_done a
  · refine ⟨[.call notice], ⟨c.shared, c.points ++ [notice.start]⟩, rfl, rfl, h.shared, ?_,
      fun p hp => ?_⟩
    · rw [hthreads, List.map_append, ← h.threads]
      rfl
    · rcases List.mem_append.mp hp with hp | hp
      · exact h.settled p hp
      · rw [List.mem_singleton.mp hp]
        exact fun a ha => absurd ⟨a, ha⟩ hearly

/-- A call that has returned has the same answer in both. -/
theorem returned {i : ℕ} {a : Answer} (h : InStep dirs enable t c)
    (hi : t.threads[i]? = some (.done a)) : c.points[i]? = some (.done a) := by
  rw [h.threads, List.getElem?_map] at hi
  obtain ⟨p, hp, hpa⟩ := Option.map_eq_some_iff.mp hi
  rw [hp, h.settled p (List.mem_of_getElem? hp) a hpa]

/-- Every schedule of sections is one of points. The induction is on the schedule. -/
theorem run (moves : List (Move Notice)) (h : InStep dirs enable t c) :
    ∃ turns : List Turn, turns.filterMap Turn.called = moves.filterMap Move.started ∧
      Outcome dirs enable (t.run (sections dirs enable) Notice.callback moves) (c.run turns) := by
  induction moves generalizing t c with
  | nil => exact ⟨[], rfl, c, rfl, h⟩
  | cons next moves ih =>
    cases next with
    | start notice =>
      obtain ⟨turns, c', hcalled, hrun, h'⟩ := h.start notice
      obtain ⟨turns', hcalled', houtcome⟩ := ih h'
      refine ⟨turns ++ turns', ?_, ?_⟩
      · rw [List.filterMap_append, hcalled, hcalled']
        rfl
      · rw [Calls.run] at hrun ⊢
        rw [List.foldlM_append, hrun]
        exact houtcome
    | step i =>
      have hstep := h.step i
      simp only [AtomicPool.run, List.foldlM_cons, AtomicPool.move]
      cases ht : t.step (sections dirs enable) i with
      | error fault =>
        rw [ht] at hstep
        -- Nothing runs behind the fault, so it does not matter how the rest is called.
        refine ⟨.step i :: (moves.filterMap Move.started).map .call, ?_, ?_⟩
        · show ((moves.filterMap Move.started).map Turn.call).filterMap Turn.called = _
          rw [List.filterMap_map]
          exact List.filterMap_some
        · simp only [Calls.run, List.foldlM_cons]
          rw [hstep]
          rfl
      | ok t' =>
        rw [ht] at hstep
        obtain ⟨c', hc, h'⟩ := hstep
        obtain ⟨turns, hcalled, houtcome⟩ := ih h'
        refine ⟨.step i :: turns, hcalled, ?_⟩
        simp only [Calls.run, List.foldlM_cons, hc]
        exact houtcome

end InStep

namespace Threads

/-- At the start the two pools are in step. -/
theorem sim_registered (heap : Heap Pid ProcessInfo) (dirs : List (KString WChar))
    (enable : Bool) :
    (registered heap).Sim (sections dirs enable) ⟨Map.construct heap, []⟩ :=
  ⟨rfl, rfl, nofun, nofun⟩

/-- At the start nothing was called. -/
theorem inStep_registered (heap : Heap Pid ProcessInfo) (dirs : List (KString WChar))
    (enable : Bool) :
    InStep dirs enable ⟨Map.construct heap, []⟩ (Calls.registered heap dirs enable) :=
  ⟨rfl, rfl, nofun⟩

/-- A schedule of single actions from `DrvRegister` on ends as a schedule of sections does, with
the same callbacks called in the same order: with the same fault, or with the same map and the same
answers. -/
theorem run_sections (heap : Heap Pid ProcessInfo) (dirs : List (KString WChar)) (enable : Bool)
    (moves : List (Move Notice)) :
    ∃ turns : List Turn, turns.filterMap Turn.called = moves.filterMap Move.started ∧
      match run dirs enable (registered heap) moves with
      | .error fault => (Calls.registered heap dirs enable).run turns = .error fault
      | .ok s => ∃ c, (Calls.registered heap dirs enable).run turns = .ok c ∧
        c.shared = ⟨s.shared, dirs, enable⟩ ∧
        ∀ (i : ℕ) (a : Answer), s.threads[i]? = some (Locking.done a) →
          c.points[i]? = some (Point.done a) := by
  obtain ⟨moves', hstarted, hshows⟩ := (sim_registered heap dirs enable).run
    (fun notice => (notice.whole dirs enable).shaped) moves
  obtain ⟨turns, hcalled, houtcome⟩ := (inStep_registered heap dirs enable).run moves'
  refine ⟨turns, hcalled.trans hstarted, ?_⟩
  change ThreadPool.Shows (sections dirs enable) (run dirs enable (registered heap) moves) _
    at hshows
  cases hs : run dirs enable (registered heap) moves with
  | error fault =>
    rw [hs] at hshows
    rw [hshows] at houtcome
    exact houtcome
  | ok s =>
    rw [hs] at hshows
    obtain ⟨t, ht, hsim⟩ := hshows
    rw [ht] at houtcome
    obtain ⟨c, hc, hinStep⟩ := houtcome
    refine ⟨c, hc, ?_, fun i a hi => hinStep.returned (hsim.returned hi)⟩
    rw [hinStep.shared, hsim.shared]

end Threads

end KernelEventsTrace.Driver.SelfDefense
