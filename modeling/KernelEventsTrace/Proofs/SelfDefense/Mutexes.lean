import KernelEventsTrace.Driver.Function.Callbacks

/-!
# `KernelEventsTrace.Proofs.SelfDefense.Mutexes`: the callbacks do not wait for each other forever

`kDirMutex` is only locked as the last one, and every section ends. The longest way through a
callback is that of `PreObCallback` with two processes that have no entry.

`Reading`, `Body` and `Whole` say of a part of a callback, of what stands in a section of
`kProcessMapMutex` and of a callback what the order of the mutexes and the shape of the sections
need, and how many actions it has at most.
-/

set_option autoImplicit false

namespace KernelEventsTrace.Driver.SelfDefense

open Locking
open KernelEventsTrace.Driver.Std (KString WChar Fault Heap Map)

/-- The order of the mutexes. -/
def StaticMutex.rank : StaticMutex → ℕ
  | processMapMutex => 0
  | dirMutex => 1

open StaticMutex (rank)

/-- The sections of `kProcessMapMutex`. -/
def sections (dirs : List (KString WChar)) (enable : Bool) :
    Sectioned StaticMutex Access.Result (Map Pid ProcessInfo) Fault where
  main := .processMapMutex
  exec := Access.exec dirs enable
  writes := Access.writes
  constant := Access.constant dirs enable
  exec_of_constant := by
    intro access r m h
    cases access <;> cases h <;> rfl
  eq_of_read := by
    intro access m r m' hreads hexec
    cases access with
    | find pid =>
      cases hfind : m.find pidLess pid <;> simp [Access.exec, hfind, bind, Except.bind] at hexec
      exact (congrArg Prod.snd (Except.ok.inj hexec)).symm
    | entry it =>
      cases hnode : m.node it <;> simp [Access.exec, hnode, bind, Except.bind] at hexec
      exact (congrArg Prod.snd (Except.ok.inj hexec)).symm
    | insert pid info => cases hreads
    | erase pid => cases hreads
    | _ => exact (congrArg Prod.snd (Except.ok.inj hexec)).symm

namespace Callback

variable {α β : Type} {dirs : List (KString WChar)} {enable : Bool} {n k : ℕ}

/-! ### Parts of a callback -/

/-- A part that only reads, and locks `kDirMutex` at most. -/
structure Reading (dirs : List (KString WChar)) (enable : Bool) (n : ℕ) (x : Callback α) :
    Prop where
  keeps : ∀ held : Finset StaticMutex, (∀ m ∈ held, rank m < rank .dirMutex) →
    x.Keeps rank held
  within : x.Within n
  reads : (sections dirs enable).Reads x

/-- What stands in a section of `kProcessMapMutex`. -/
structure Body (dirs : List (KString WChar)) (enable : Bool) (n : ℕ) (x : Callback α) :
    Prop where
  keeps : x.Keeps rank {.processMapMutex}
  within : x.Within n
  part : (sections dirs enable).Section x

/-- A callback, or what is left of it outside of the sections. -/
structure Whole (dirs : List (KString WChar)) (enable : Bool) (n : ℕ) (x : Callback α) :
    Prop where
  keeps : x.Keeps rank ∅
  within : x.Within n
  shaped : (sections dirs enable).Shaped .outside x

section
variable {x : Callback α} {f : α → Callback β}

/-- A part that does nothing. -/
theorem reading_done (a : α) : Reading dirs enable n (.done a) :=
  ⟨fun _ _ => keeps_done a, trivial, Sectioned.reads_done a⟩

/-- A part that begins with a read. -/
theorem reading_read {access : Access} {f : access.Result → Callback β}
    (h : access.writes = false) (hf : ∀ r, Reading dirs enable n (f r)) :
    Reading dirs enable (n + 1) ((op access).andThen f) :=
  ⟨fun held hheld => (keeps_op _).andThen fun r => (hf r).keeps held hheld,
    Nat.add_comm n 1 ▸ (within_op _).andThen fun r => (hf r).within,
    (Sectioned.reads_op h).andThen fun r => (hf r).reads⟩

/-- Two parts that only read, one after the other. -/
theorem Reading.andThen (hx : Reading dirs enable k x) (hf : ∀ a, Reading dirs enable n (f a)) :
    Reading dirs enable (n + k) (x.andThen f) :=
  ⟨fun held hheld => (hx.keeps held hheld).andThen fun a => (hf a).keeps held hheld,
    Nat.add_comm n k ▸ hx.within.andThen fun a => (hf a).within,
    hx.reads.andThen fun a => (hf a).reads⟩

/-- A single action can stand in a section. -/
theorem body_op (access : Access) : Body dirs enable (n + 1) (op access) :=
  ⟨keeps_op _, (within_op _).mono (Nat.le_add_left 1 n), Sectioned.section_op access⟩

/-- A section that begins with a read. -/
theorem body_read {access : Access} {f : access.Result → Callback β}
    (h : access.writes = false) (hf : ∀ r, Body dirs enable n (f r)) :
    Body dirs enable (n + 1) ((op access).andThen f) :=
  ⟨(keeps_op _).andThen fun r => (hf r).keeps,
    Nat.add_comm n 1 ▸ (within_op _).andThen fun r => (hf r).within,
    (Sectioned.reads_op h).andThen_section fun r => (hf r).part⟩

/-- A part that only reads can stand in a section. -/
theorem Reading.body (hx : Reading dirs enable n x) : Body dirs enable n x :=
  ⟨hx.keeps _ (by decide), hx.within, hx.reads.section⟩

/-- The first part of a section reads only. -/
theorem Reading.andThen_body (hx : Reading dirs enable k x) (hf : ∀ a, Body dirs enable n (f a)) :
    Body dirs enable (n + k) (x.andThen f) :=
  ⟨(hx.keeps _ (by decide)).andThen fun a => (hf a).keeps,
    Nat.add_comm n k ▸ hx.within.andThen fun a => (hf a).within,
    hx.reads.andThen_section fun a => (hf a).part⟩

/-- The bound on the actions of a section can be raised. -/
theorem Body.mono (hx : Body dirs enable n x) (hle : n ≤ k) : Body dirs enable k x :=
  ⟨hx.keeps, hx.within.mono hle, hx.part⟩

/-- A section whose answer is changed afterwards. -/
theorem Body.andThen_done (hx : Body dirs enable n x) (g : α → β) :
    Body dirs enable n (x.andThen fun a => .done (g a)) :=
  ⟨hx.keeps.andThen fun _ => keeps_done _, hx.within.andThen (k := 0) fun _ => trivial,
    hx.part.andThen_done g⟩

/-- A part that only reads can stand outside of the sections. -/
theorem Reading.whole (hx : Reading dirs enable n x) : Whole dirs enable n x :=
  ⟨hx.keeps ∅ nofun, hx.within, hx.reads.shaped⟩

/-- Two parts, one after the other. -/
theorem Whole.andThen (hx : Whole dirs enable k x) (hf : ∀ a, Whole dirs enable n (f a)) :
    Whole dirs enable (n + k) (x.andThen f) :=
  ⟨hx.keeps.andThen fun a => (hf a).keeps,
    Nat.add_comm n k ▸ hx.within.andThen fun a => (hf a).within,
    hx.shaped.andThen fun a => (hf a).shaped⟩

/-- A callback that begins with a read. -/
theorem whole_read {access : Access} {f : access.Result → Callback β}
    (h : access.writes = false) (hf : ∀ r, Whole dirs enable n (f r)) :
    Whole dirs enable (n + 1) ((op access).andThen f) :=
  ⟨(keeps_op _).andThen fun r => (hf r).keeps,
    Nat.add_comm n 1 ▸ (within_op _).andThen fun r => (hf r).within,
    (Sectioned.reads_op h).shaped.andThen fun r => (hf r).shaped⟩

/-- A call that returns at once. -/
theorem whole_done (a : α) : Whole dirs enable n (.done a) := (reading_done a).whole

/-- The bound on the actions of a callback can be raised. -/
theorem Whole.mono (hx : Whole dirs enable n x) (hle : n ≤ k) : Whole dirs enable k x :=
  ⟨hx.keeps, hx.within.mono hle, hx.shaped⟩

/-- A section of `kProcessMapMutex`. -/
theorem Body.guarded (hx : Body dirs enable n x) :
    Whole dirs enable (n + 2) (guarded .processMapMutex x) :=
  ⟨Keeps.guarded hx.keeps (by decide), hx.within.guarded _,
    Sectioned.Section.guarded (S := sections dirs enable) hx.part⟩

end

/-! ### The callbacks -/

variable {images : Images}

/-- `IsInProtectedDirectory` locks and unlocks `kDirMutex` around one read. -/
theorem reading_isInProtectedDirectory (path : KString WChar) :
    Reading dirs enable 3 (isInProtectedDirectory path) :=
  ⟨fun _ hheld => (keeps_op _).guarded hheld, (within_op _).guarded _,
    (Sectioned.reads_op rfl).guarded nofun⟩

/-- Without nested calls, a lookup of an image only reads the entry. -/
theorem reading_imageName (hquiet : images.Quiet) (pid : Pid) (it : Std.Iterator) :
    Reading dirs enable 2 (imageName images pid it) := by
  refine reading_read rfl fun isEntry => ?_
  cases isEntry with
  | true => exact reading_read rfl fun info => reading_done _
  | false =>
    show Reading dirs enable 1 ((images.opening pid).andThen _)
    rw [hquiet pid]
    exact reading_done _

/-- `GetProcessImageName` finds the entry, and reads it. -/
theorem reading_getProcessImageName (hquiet : images.Quiet) (pid : Pid) :
    Reading dirs enable 3 (getProcessImageName images pid) :=
  reading_read rfl fun it => reading_imageName hquiet pid it

/-- An insertion is part of a section. -/
theorem body_insert (pid : Pid) (info : ProcessInfo) :
    Body dirs enable (n + 1) (insert pid info) :=
  body_op _

/-- The section of `IsProtectedProcess`, in which no path asks for another mutex but `kDirMutex`. -/
theorem body_lookup (hquiet : images.Quiet) (pid : Pid) :
    Body dirs enable 9 (lookup images pid) := by
  refine body_read rfl fun it => body_read rfl fun isEntry => ?_
  cases isEntry with
  | true =>
    refine body_read rfl fun info => ?_
    show Body dirs enable _ (if info.isProtected = false then _ else _)
    split
    · refine body_read rfl fun info => ?_
      exact (reading_isInProtectedDirectory info.processPath).body.mono (by decide)
    · exact (reading_done true).body
  | false =>
    refine (reading_getProcessImageName hquiet pid).andThen_body fun path => ?_
    refine (reading_isInProtectedDirectory path).andThen_body fun isProtected => ?_
    exact (body_insert pid ⟨pid, path.copy, isProtected, 0⟩).andThen_done fun _ => isProtected

/-- `IsProtectedProcess` adds its mutex to the section. -/
theorem whole_isProtectedProcess (hquiet : images.Quiet) (pid : Pid) :
    Whole dirs enable 11 (isProtectedProcess images pid) :=
  (body_lookup hquiet pid).guarded

/-- The insertion of the new entry is a section of its own. -/
theorem whole_notifyProtected (pid : Pid) (startTime : Time) (path : KString WChar)
    (isProtected : Bool) : Whole dirs enable 3 (notifyProtected pid startTime path isProtected) :=
  Whole.andThen (n := 0) (body_insert (n := 0) pid _).guarded fun _ => whole_done _

/-- The section that finds the parent. -/
theorem body_parentProtected (pid : Pid) : Body dirs enable 3 (parentProtected pid) := by
  refine body_read rfl fun it => body_read rfl fun isEntry => ?_
  cases isEntry with
  | true => exact body_read rfl fun info => (reading_done info.isProtected).body
  | false => exact (reading_done false).body

/-- What a creation notification does with the path of the new process. -/
theorem whole_notifyPath (currentPid pid : Pid) (startTime : Time) (path : KString WChar) :
    Whole dirs enable 11 (notifyPath currentPid pid startTime path) := by
  refine (reading_isInProtectedDirectory path).whole.andThen fun isProtected => ?_
  cases isProtected with
  | true => exact (whole_notifyProtected pid startTime path true).mono (by decide)
  | false =>
    exact (body_parentProtected currentPid).guarded.andThen fun isProtected =>
      whole_notifyProtected pid startTime path isProtected

/-- A creation notification also looks its image up, before it locks anything. -/
theorem whole_notifyCreation (hquiet : images.Quiet) (currentPid pid : Pid) (startTime : Time) :
    Whole dirs enable 14 (notifyCreation images currentPid pid startTime) :=
  (reading_getProcessImageName hquiet pid).whole.andThen fun path =>
    whole_notifyPath currentPid pid startTime path

/-- The section of a termination notification. -/
theorem body_terminate (pid : Pid) : Body dirs enable 4 (terminate pid) := by
  refine body_read rfl fun it => body_read rfl fun isEntry => ?_
  cases isEntry with
  | true => exact body_read rfl fun info => body_op (.erase pid)
  | false => exact body_op (.erase pid)

/-- A termination notification is one section. -/
theorem whole_notifyTermination (pid : Pid) : Whole dirs enable 6 (notifyTermination pid) :=
  Whole.andThen (n := 0) (body_terminate pid).guarded fun _ => whole_done _

/-- What a file callback does with its answer: a denied operation has the image looked up for a
message. -/
theorem whole_answerFile (hquiet : images.Quiet) (currentPid : Pid) (result : PreopResult) :
    Whole dirs enable 3 (answerFile images currentPid result) := by
  cases result with
  | complete status =>
    exact Whole.andThen (n := 0) (reading_getProcessImageName hquiet currentPid).whole fun _ =>
      whole_done _
  | _ => exact whole_done _

/-- A file callback tests the directory and the process, and then does its own check. -/
theorem whole_guardFile (hquiet : images.Quiet) (currentPid : Pid) (path : KString WChar)
    {check : Callback Answer} (hcheck : Whole dirs enable n check) :
    Whole dirs enable (n + 14) (guardFile images currentPid path check) := by
  refine Whole.andThen (n := n + 3) (whole_isProtectedProcess hquiet currentPid)
    fun isProtected => ?_
  cases isProtected with
  | true => exact whole_done _
  | false =>
    refine (reading_isInProtectedDirectory path).whole.andThen fun inside => ?_
    cases inside with
    | true => exact hcheck
    | false => exact whole_done _

/-- `PreCreateFile` checks the access at the end. -/
theorem whole_preCreateFile (hquiet : images.Quiet) (data : CreateRequest) :
    Whole dirs enable 18 (preCreateFile images data) := by
  refine whole_read rfl fun (isEnabled : Bool) => ?_
  show Whole dirs enable _ (if isEnabled = false then _ else _)
  split_ifs
  · exact whole_done _
  · exact whole_done _
  · exact whole_done _
  · exact whole_guardFile hquiet data.currentPid data.filePath
      (whole_answerFile hquiet data.currentPid _)

/-- The check of `PreSetInformationFile` can test the directory of the destination. -/
theorem whole_checkSetInformation (hquiet : images.Quiet) (data : SetInformationRequest) :
    Whole dirs enable 6 (checkSetInformation images data) := by
  have hblocked : Whole dirs enable 3
      (answerFile images data.currentPid (.complete statusAccessDenied)) :=
    whole_answerFile hquiet _ _
  unfold checkSetInformation
  split_ifs
  · exact hblocked.mono (by decide)
  · cases data.destination with
    | none => exact whole_done _
    | some name =>
      refine (reading_isInProtectedDirectory (.of name)).whole.andThen fun inside => ?_
      cases inside with
      | true => exact hblocked
      | false => exact whole_done _
  · exact whole_done _

/-- `PreSetInformationFile` reads the flag first, as `PreCreateFile` does. -/
theorem whole_preSetInformationFile (hquiet : images.Quiet) (data : SetInformationRequest) :
    Whole dirs enable 21 (preSetInformationFile images data) := by
  refine whole_read rfl fun (isEnabled : Bool) => ?_
  show Whole dirs enable _ (if isEnabled = false then _ else _)
  split_ifs
  · exact whole_done _
  · exact whole_done _
  · exact whole_done _
  · exact whole_guardFile hquiet data.currentPid data.filePath
      (whole_checkSetInformation hquiet data)

/-- The age of the target is read off its entry. -/
theorem reading_checkStart (op : ObRequest) (it : Std.Iterator) :
    Reading dirs enable 2 (checkStart op it) := by
  refine reading_read rfl fun isEntry => ?_
  cases isEntry with
  | false => exact reading_done _
  | true =>
    refine reading_read rfl fun info => ?_
    show Reading dirs enable _ (if op.currTime - info.startTime < 5000000#64 then _ else _)
    split
    · exact reading_done _
    · exact reading_done _

/-- A handle request looks its target up, and then finds the entry again. -/
theorem whole_checkTarget (hquiet : images.Quiet) (op : ObRequest) :
    Whole dirs enable 14 (checkTarget images op) := by
  refine (whole_isProtectedProcess hquiet op.object.targetPid).andThen fun isProtected => ?_
  cases isProtected with
  | true => exact whole_read rfl fun it => (reading_checkStart op it).whole
  | false => exact whole_done _

/-- `PreObCallback` has the longest way: two lookups and the age test. -/
theorem whole_preObCallback (hquiet : images.Quiet) (op : ObRequest) :
    Whole dirs enable 25 (preObCallback images op) := by
  unfold preObCallback
  split_ifs
  · exact whole_done _
  · exact whole_done _
  · refine Whole.andThen (n := 14) (whole_isProtectedProcess hquiet op.sourcePid)
      fun isProtected => ?_
    cases isProtected with
    | true => exact whole_done _
    | false => exact whole_checkTarget hquiet op

end Callback

/-- No lookup of the callback gets to `ObOpenObjectByPointer`. -/
def Notice.Direct (notice : Notice) : Prop :=
  ∀ query ∈ notice.query?, ∀ pid, (query pid).opens = false

/-- Every callback is whole, if its images are looked up without nested calls. -/
theorem Notice.whole_callbackWith {images : (Pid → ImageQuery) → Images} {notice : Notice}
    (hquiet : ∀ query ∈ notice.query?, (images query).Quiet) (dirs : List (KString WChar))
    (enable : Bool) : Callback.Whole dirs enable 25 (notice.callbackWith images) := by
  cases notice with
  | creation query currentPid pid startTime =>
    have hquiet := hquiet query rfl
    exact (Callback.whole_notifyCreation hquiet currentPid pid startTime).mono (by decide)
  | termination pid => exact (Callback.whole_notifyTermination pid).mono (by decide)
  | lookup query pid =>
    exact (Callback.whole_isProtectedProcess (hquiet query rfl) pid).andThen
      fun _ => Callback.whole_done _
  | createFile query data =>
    exact (Callback.whole_preCreateFile (hquiet query rfl) data).mono (by decide)
  | setInformationFile query data =>
    exact (Callback.whole_preSetInformationFile (hquiet query rfl) data).mono (by decide)
  | createHandle query op => exact Callback.whole_preObCallback (hquiet query rfl) op

/-- Without nested calls, the lookups of images are quiet. -/
theorem quiet_of (query : Pid → ImageQuery) : (Images.of query).Quiet := fun _ => rfl

/-- Every callback without nested calls is whole. -/
theorem Notice.whole (notice : Notice) (dirs : List (KString WChar)) (enable : Bool) :
    Callback.Whole dirs enable 25 notice.callback :=
  notice.whole_callbackWith (fun query _ => quiet_of query) dirs enable

/-- If nothing is opened, nothing is called from within. -/
theorem quiet_nested (n : ℕ) (thread : Thread) {query : Pid → ImageQuery}
    (h : ∀ pid, (query pid).opens = false) : (Images.nested thread n query).Quiet := by
  intro pid
  cases n with
  | zero => rfl
  | succ n => exact if_neg (by rw [h pid]; decide)

/-- A direct lookup makes no nested call, so `whole_callbackWith` applies at any depth. -/
theorem Notice.whole_nested {notice : Notice} (h : notice.Direct) (n : ℕ) (thread : Thread)
    (dirs : List (KString WChar)) (enable : Bool) :
    Callback.Whole dirs enable 25 (notice.nested n thread) :=
  notice.whole_callbackWith (fun query hquery => quiet_nested n thread (h query hquery)) dirs enable

/-! ### Schedules -/

namespace Threads

/-- No mutex is locked before the first call. -/
theorem orderly_registered (heap : Heap Pid ProcessInfo) : (registered heap).Orderly rank :=
  ⟨nofun, nofun⟩

/-- No action is left before the first call. -/
theorem left_registered (heap : Heap Pid ProcessInfo) :
    (registered heap).Left (25 * (registered heap).threads.length) :=
  ⟨fun _ => 0, nofun, Nat.le_refl 0⟩

/-- In every schedule of actions from `DrvRegister` on in which no lookup of an image gets to
`ObOpenObjectByPointer`, a mutex is only unlocked by the call that has locked it, and no call waits
for itself. If no further callback is called, then at most 25 actions for each call are left, and as
long as some call has not returned, one of them can go on. -/
theorem run_progress (heap : Heap Pid ProcessInfo) (dirs : List (KString WChar)) (enable : Bool)
    (n : ℕ) (moves : List (Move (Thread × Notice)))
    (hdirect : ∀ thread notice, .start (thread, notice) ∈ moves → notice.Direct) (s : Threads)
    (hrun : runNested n dirs enable (registered heap) moves = .ok s) :
    (∀ m i next, s.threads[i]? = some (.unlock m next) → s.owner m = some i) ∧
    (∀ m i next, s.threads[i]? = some (.lock m next) → s.owner m ≠ some i) ∧
    ∀ is s', ThreadPool.Steps (Access.exec dirs enable) s' s is →
      is.length ≤ 25 * s.threads.length ∧ (s'.Returned ∨ ∃ i, s'.Ready i) := by
  have hwhole : ∀ c : Thread × Notice, .start c ∈ moves →
      Callback.Whole dirs enable 25 (c.2.nested n c.1) := fun c hc =>
    Notice.whole_nested (hdirect c.1 c.2 hc) n c.1 dirs enable
  have horder : s.Orderly rank :=
    (orderly_registered heap).run (fun c hc => (hwhole c hc).keeps) hrun
  have hleft : s.Left (25 * s.threads.length) :=
    (left_registered heap).run (fun c hc => (hwhole c hc).within) hrun
  refine ⟨fun m i next => horder.owner_of_unlock, fun m i next => horder.owner_ne_of_lock, ?_⟩
  intro is s' hsteps
  exact ⟨hleft.steps hsteps, or_iff_not_imp_left.mpr (horder.steps hsteps).ready⟩

/-- A process with no image path. -/
def noImage (_ : Pid) : ImageQuery where
  found := false
  located := none
  resolved := true
  opened := false
  mismatch := false
  allocated := false
  queried := []

/-- The thread of process 7. -/
def thread7 : Thread := ⟨7, .userMode, 0⟩

/-- The termination of process 8 comes while a lookup is in its section. -/
def lookupAndTermination : List (Move (Thread × Notice)) :=
  [.start (thread7, .lookup noImage 8), .start (thread7, .termination 8), .step 0, .step 0, .step 1]

/-- Both calls look images up that `SeLocateProcessImageName` finds. -/
theorem direct_lookupAndTermination (thread : Thread) (notice : Notice)
    (h : .start (thread, notice) ∈ lookupAndTermination) : notice.Direct := by
  simp only [lookupAndTermination, List.mem_cons, Move.start.injEq, Prod.mk.injEq, reduceCtorEq,
    List.not_mem_nil, or_false] at h
  rcases h with ⟨-, rfl⟩ | ⟨-, rfl⟩
  · intro query hquery pid
    cases hquery
    rfl
  · exact nofun

/-- The lookup has the mutex, and can go on. -/
theorem run_progress_waiting :
    ∃ s, runNested 1 [] true (registered ⟨[]⟩) lookupAndTermination = .ok s ∧
      s.owner .processMapMutex = some 0 ∧ (s.Returned ∨ ∃ i, s.Ready i) := by
  refine ⟨_, rfl, rfl, ?_⟩
  exact ((run_progress ⟨[]⟩ [] true 1 lookupAndTermination direct_lookupAndTermination _ rfl).2.2
    [] _ rfl).2

/-- The image of process 8 is only found by its object. -/
def openedImage (pid : Pid) : ImageQuery :=
  if pid = 8 then { noImage pid with found := true } else noImage pid

/-- Process 7 asks for a handle of process 8. -/
def openProcess8 : Notice := .createHandle openedImage
  { kernelHandle := false, previousMode := .userMode, sourcePid := 7, object := .process 8,
    desiredAccess := 1, currTime := 0 }

/-- The call from within waits for `kProcessMapMutex`, which its own caller has. So the lookups in
`run_progress` have to be direct. -/
theorem waits_for_itself :
    ∃ s, runNested 1 [] true (registered ⟨[]⟩)
        (.start (thread7, openProcess8) :: List.replicate 15 (.step 0)) = .ok s ∧
      s.owner .processMapMutex = some 0 ∧ ∃ next, s.threads = [.lock .processMapMutex next] :=
  ⟨_, rfl, rfl, _, rfl⟩

end Threads

end KernelEventsTrace.Driver.SelfDefense
