import KernelEventsTrace.EtwService.Manager.ProcessManager
import KernelEventsTrace.Proofs.Manager.Win32Path

/-!
# `KernelEventsTrace.Proofs.Manager.Process`: images after a PID was given to another process

`since log pid` is the process that was started under the PID and has not ended, with the contents
of `kWin32Path` at the calls for the PID since then. In a fresh log (`FreshLog`) every answer for
the PID is the path of that process, as `GetWin32Path` gives it at the call itself or gave it at
one of these calls.

`GetImageFileName` answers with the name in the map, if there is one, and only the End event takes
it out (`cachedName_removeProcess`). A call after the End event puts a name back, which the next
process under the PID then has.

`freshLog_of_owned`: the log is fresh if no name is in the map when a process is started, or its own
one, and the PIDs that are looked up while their processes run belong to these processes.
-/

set_option autoImplicit false

namespace KernelEventsTrace.EtwService.Manager

/-! ### Specification -/

/-- The process that was started under the PID, until it ends, and the contents of `kWin32Path` at
the calls for the PID since the start. -/
def sinceStep (pid : UInt64) (now : Option (Process × List Win32PathMap)) :
    Entry → Option (Process × List Win32PathMap)
  | .started p process => if p = pid then some (process, []) else now
  | .ended p => if p = pid then none else now
  | .call p kWin32Path _ => if p = pid then now.map fun s => (s.1, s.2 ++ [kWin32Path]) else now

/-- The process that was started last under this PID, with the path maps from its start on. -/
def since (log : List Entry) (pid : UInt64) : Option (Process × List Win32PathMap) :=
  log.foldl (sinceStep pid) none

/-- The path of the image of a process. -/
def imagePath (files : NtFiles) (locale : Locale) (kWin32Path : Win32PathMap)
    (process : Process) : WString :=
  (getWin32Path files locale kWin32Path process.image).1

/-- Every answer for a PID whose process was started, and has not ended, is the path of the image of
this process, as it is at the call or was at an earlier call for the PID since the start. -/
def FreshLog (files : NtFiles) (locale : Locale) (log : List Entry) : Prop :=
  ∀ pre pid kWin32Path answer, pre ++ [.call pid kWin32Path answer] <+: log →
    ∀ process maps, since pre pid = some (process, maps) →
      ∃ m ∈ maps ++ [kWin32Path], answer = imagePath files locale m process

/-- The name that the map has for a PID, or the empty one. -/
def cachedName (s : State) (pid : UInt64) : WString :=
  ((s.processMap pid).getD {}).imageFileName

/-- The PIDs that an event asks for. -/
def asked : ProcessEvent → List UInt64
  | .start event _ => [castInt event.pid, castInt event.processId, castInt event.ppid]
  | .stop pid => [pid]
  | .query pid => [pid]

/-- The process that runs under a PID. -/
def running (log : List Entry) (pid : UInt64) : Option Process := (since log pid).map (·.1)

/-- The process that runs under a PID when an event is handled. -/
def runningAt (log : List Entry) (pid : UInt64) : ProcessEvent → Option Process
  | .start event process => if event.pid = pid then some process else running log pid
  | .stop _ => running log pid
  | .query _ => running log pid

/-- A PID under which a process runs has a name in the map, or belongs to this process. -/
def Known (owners : Owners) (s : State) (runs : Option Process) (pid : UInt64) : Prop :=
  ∀ process, runs = some process →
    cachedName s pid ≠ [] ∨ owners pid.toUInt32 = some process

/-- The map has no name for a PID, or the path that the image of a process has now. Then the Start
event asks for this PID first. -/
def Forgotten (files : NtFiles) (locale : Locale) (s : State) (pid : UInt64) (process : Process) :
    Prop :=
  cachedName s pid = [] ∨
    castInt pid = pid ∧ cachedName s pid = imagePath files locale s.kWin32Path process

/-- The map has no name for a PID when a process is started under it, or that of this process. A PID
that is looked up, while a process runs under it, belongs to this process. -/
structure Owned (files : NtFiles) (locale : Locale) (owners : Owners) (r : Run)
    (event : ProcessEvent) : Prop where
  forgotten : ∀ e process, event = .start e process → Forgotten files locale r.state e.pid process
  known : ∀ pid ∈ asked event, Known owners r.state (runningAt r.log pid event) pid

/-- Every event of a run meets this, in the state before it. -/
def AllOwned (files : NtFiles) (locale : Locale) : Run → List (Owners × ProcessEvent) → Prop
  | _, [] => True
  | r, e :: events =>
    Owned files locale e.1 r e.2 ∧ AllOwned files locale (r.step files locale e.1 e.2) events

/-! ### The log -/

/-- One more entry. -/
theorem since_snoc (log : List Entry) (entry : Entry) (pid : UInt64) :
    since (log ++ [entry]) pid = sinceStep pid (since log pid) entry := by
  unfold since
  rw [List.foldl_append]
  rfl

section
variable {files : NtFiles} {locale : Locale}

/-- Nothing was asked yet. -/
theorem freshLog_nil : FreshLog files locale [] := by
  intro pre pid kWin32Path answer h
  simp at h

/-- An entry that is no call. -/
theorem FreshLog.snoc_mark {log : List Entry} (h : FreshLog files locale log) {entry : Entry}
    (hmark : ∀ pid m answer, entry ≠ .call pid m answer) :
    FreshLog files locale (log ++ [entry]) := by
  intro pre pid kWin32Path answer hpre
  rcases List.prefix_concat_iff.mp hpre with heq | hpre
  · obtain ⟨-, hlast⟩ := List.append_inj' heq rfl
    exact absurd (List.cons.inj hlast).1.symm (hmark pid kWin32Path answer)
  · exact h pre pid kWin32Path answer hpre

/-- A call. -/
theorem FreshLog.snoc_call {log : List Entry} (h : FreshLog files locale log) {pid : UInt64}
    {kWin32Path : Win32PathMap} {answer : WString}
    (hcall : ∀ process maps, since log pid = some (process, maps) →
      ∃ m ∈ maps ++ [kWin32Path], answer = imagePath files locale m process) :
    FreshLog files locale (log ++ [.call pid kWin32Path answer]) := by
  intro pre p m a hpre
  rcases List.prefix_concat_iff.mp hpre with heq | hpre
  · obtain ⟨rfl, hlast⟩ := List.append_inj' heq rfl
    obtain ⟨rfl, rfl, rfl⟩ : p = pid ∧ m = kWin32Path ∧ a = answer := by
      simpa using (List.cons.inj hlast).1
    exact hcall
  · exact h pre p m a hpre

/-! ### The map -/

variable {owners : Owners} {s : State} {pid : UInt64}

/-- The buffer has the image of the process that can be opened. -/
theorem imageBuffer_of_owner {process : Process} (h : owners pid.toUInt32 = some process) :
    imageBuffer owners pid = process.image := by
  unfold imageBuffer
  rw [h]

/-- The cached name after an update. -/
theorem cachedName_updateImageFileName (m : ProcessMap) (kWin32Path : Win32PathMap)
    (image : WString) (p : UInt64) :
    cachedName ⟨updateImageFileName m pid image, kWin32Path⟩ p =
      if p = pid then image else cachedName ⟨m, kWin32Path⟩ p := by
  unfold cachedName updateImageFileName
  by_cases hp : p = pid
  · subst hp
    cases m p <;> simp
  · cases m pid <;> simp [Function.update_of_ne hp, if_neg hp]

/-- `AddProcess` and `UpdateProcessCreationTime` leave the names as they are. -/
theorem cachedName_addProcess (m : ProcessMap) (kWin32Path : Win32PathMap)
    (pid ppidReal ppidAdopted time p : UInt64) :
    cachedName ⟨updateProcessCreationTime (addProcess m pid ppidReal ppidAdopted) pid time,
      kWin32Path⟩ p = cachedName ⟨m, kWin32Path⟩ p := by
  unfold cachedName updateProcessCreationTime addProcess
  by_cases hp : p = pid
  · subst hp
    simp
  · simp [Function.update_of_ne hp]

/-- The cached name after a removal. -/
theorem cachedName_removeProcess (m : ProcessMap) (kWin32Path : Win32PathMap) (pid p : UInt64) :
    cachedName ⟨removeProcess m pid, kWin32Path⟩ p =
      if p = pid then [] else cachedName ⟨m, kWin32Path⟩ p := by
  unfold cachedName removeProcess
  by_cases hp : p = pid
  · subst hp
    simp
  · simp [Function.update_of_ne hp, if_neg hp]

/-- The answer for a PID is the name in the map, if there is one. -/
theorem getImageFileName_eq :
    getImageFileName files locale owners s pid =
      if cachedName s pid = [] then lookUpImageFileName files locale owners s pid
      else (cachedName s pid, s) := by
  unfold getImageFileName cachedName
  cases s.processMap pid with
  | none => rfl
  | some info =>
    show (if info.imageFileName.length > 0 then _ else _) = if info.imageFileName = [] then _ else _
    by_cases hname : info.imageFileName = []
    · rw [if_neg (by simp [hname]), if_pos hname]
    · rw [if_pos (List.length_pos_iff.mpr hname), if_neg hname]
      rfl

/-- An image that is looked up is converted to a path. -/
theorem lookUpImageFileName_fst :
    (lookUpImageFileName files locale owners s pid).1 =
      (getWin32Path files locale s.kWin32Path (imageBuffer owners pid)).1 := by
  unfold lookUpImageFileName
  dsimp only
  split <;> rfl

/-- An empty path is not put into the map, where the name is empty already. -/
theorem cachedName_lookUp (h : cachedName s pid = []) (p : UInt64) :
    cachedName (lookUpImageFileName files locale owners s pid).2 p =
      if p = pid then (lookUpImageFileName files locale owners s pid).1 else cachedName s p := by
  rw [lookUpImageFileName_fst]
  unfold lookUpImageFileName
  generalize getWin32Path files locale s.kWin32Path (imageBuffer owners pid) = image
  dsimp only
  by_cases himage : image.1 = []
  · rw [if_neg (by simp [himage]), himage]
    by_cases hp : p = pid
    · subst hp
      rw [if_pos rfl]
      exact h
    · rw [if_neg hp]
      rfl
  · rw [if_pos (List.length_pos_iff.mpr himage)]
    exact cachedName_updateImageFileName s.processMap image.2 image.1 p

/-- The map has the answer for the PID afterwards, and the names of the other PIDs stay. -/
theorem cachedName_getImageFileName (p : UInt64) :
    cachedName (getImageFileName files locale owners s pid).2 p =
      if p = pid then (getImageFileName files locale owners s pid).1 else cachedName s p := by
  rw [getImageFileName_eq]
  by_cases hname : cachedName s pid = []
  · rw [if_pos hname]
    exact cachedName_lookUp hname p
  · rw [if_neg hname]
    by_cases hp : p = pid
    · subst hp
      rw [if_pos rfl]
    · rw [if_neg hp]

/-! ### Runs -/

/-- A name in the map, for a PID under which a process runs, is the path that the image of this
process had at one of the calls. -/
def NameRight (files : NtFiles) (locale : Locale) (r : Run) (pid : UInt64) : Prop :=
  ∀ process maps, since r.log pid = some (process, maps) → cachedName r.state pid ≠ [] →
    ∃ m ∈ maps, cachedName r.state pid = imagePath files locale m process

/-- The invariant. -/
structure Inv (files : NtFiles) (locale : Locale) (r : Run) : Prop where
  fresh : FreshLog files locale r.log
  name : ∀ pid, NameRight files locale r pid

variable {r : Run}

/-- At the start nothing is cached. -/
theorem inv_initial : Inv files locale .initial := by
  refine ⟨freshLog_nil, ?_⟩
  intro pid process maps h
  cases h

/-- A call that is answered right. What the map has for its PID before does not matter. -/
theorem inv_ask (hfresh : FreshLog files locale r.log)
    (hother : ∀ p, p ≠ pid → NameRight files locale r p)
    (hanswer : ∀ process maps, since r.log pid = some (process, maps) →
      ∃ m ∈ maps ++ [r.state.kWin32Path],
        (getImageFileName files locale owners r.state pid).1 = imagePath files locale m process) :
    Inv files locale (r.ask files locale owners pid) := by
  refine ⟨hfresh.snoc_call hanswer, ?_⟩
  intro p process maps hsince hname
  have hlog : since (r.ask files locale owners pid).log p =
      sinceStep p (since r.log p) (.call pid r.state.kWin32Path _) := since_snoc _ _ _
  have hstate : cachedName (r.ask files locale owners pid).state p = _ :=
    cachedName_getImageFileName p
  rw [hlog] at hsince
  rw [hstate] at hname ⊢
  by_cases hp : p = pid
  · subst hp
    rw [if_pos rfl]
    cases hbefore : since r.log p with
    | none =>
      rw [hbefore] at hsince
      simp [sinceStep] at hsince
    | some before =>
      rw [hbefore] at hsince
      obtain ⟨rfl, rfl⟩ : before.1 = process ∧ before.2 ++ [r.state.kWin32Path] = maps := by
        simpa [sinceStep] using hsince
      exact hanswer before.1 before.2 hbefore
  · -- The call is about another PID.
    rw [if_neg hp] at hname ⊢
    have hsame : since r.log p = some (process, maps) := by
      simpa [sinceStep, Ne.symm hp] using hsince
    exact hother p hp process maps hsame hname

/-- A call for a PID keeps the invariant, if the map has a name for it or its owner is the process
that runs under it. -/
theorem Inv.ask (h : Inv files locale r)
    (hknown : Known owners r.state (running r.log pid) pid) :
    Inv files locale (r.ask files locale owners pid) := by
  refine inv_ask h.fresh (fun p _ => h.name p) fun process maps hsince => ?_
  -- The answer is right: it is the name in the map, or the path of the owner.
  rw [getImageFileName_eq]
  by_cases hname : cachedName r.state pid = []
  · -- The process is asked for its image, and it is the one that runs.
    have hrunning : running r.log pid = some process := by
      unfold running
      rw [hsince]
      rfl
    have howner := (hknown process hrunning).resolve_left fun hn => hn hname
    rw [if_pos hname, lookUpImageFileName_fst, imageBuffer_of_owner howner]
    exact ⟨r.state.kWin32Path, by simp, rfl⟩
  · -- The name was right at an earlier call.
    rw [if_neg hname]
    obtain ⟨m, hm, heq⟩ := h.name pid process maps hsince hname
    exact ⟨m, List.mem_append_left _ hm, heq⟩

/-- A process that is started leaves the names of the other PIDs right. -/
theorem Inv.started_other (h : Inv files locale r) (process : Process) {p : UInt64}
    (hp : p ≠ pid) :
    NameRight files locale { r with log := r.log ++ [.started pid process] } p := by
  intro other maps hsince hcached
  have hlog : sinceStep p (since r.log p) (.started pid process) = some (other, maps) := by
    rw [← since_snoc]
    exact hsince
  exact h.name p other maps (by simpa [sinceStep, Ne.symm hp] using hlog) hcached

/-- A process is started under a PID without a name. -/
theorem Inv.started (h : Inv files locale r) (hname : cachedName r.state pid = [])
    (process : Process) :
    Inv files locale { r with log := r.log ++ [.started pid process] } := by
  refine ⟨h.fresh.snoc_mark (by simp), fun p => ?_⟩
  by_cases hp : p = pid
  · -- There are no calls for the new process yet, and no name.
    subst hp
    exact fun _ _ _ hcached => absurd hname hcached
  · exact h.started_other process hp

/-- A process is started under a PID with the name of its image, and the PID is asked for. -/
theorem Inv.started_ask (h : Inv files locale r) {process : Process}
    (hne : cachedName r.state pid ≠ [])
    (hname : cachedName r.state pid = imagePath files locale r.state.kWin32Path process) :
    Inv files locale
      (Run.ask files locale owners { r with log := r.log ++ [.started pid process] } pid) := by
  refine inv_ask (h.fresh.snoc_mark (by simp)) (fun p hp => h.started_other process hp) ?_
  intro other maps hsince
  have hlog : sinceStep pid (since r.log pid) (.started pid process) = some (other, maps) := by
    rw [← since_snoc]
    exact hsince
  obtain ⟨rfl, rfl⟩ : process = other ∧ [] = maps := by simpa [sinceStep] using hlog
  refine ⟨r.state.kWin32Path, by simp, ?_⟩
  show (getImageFileName files locale owners r.state pid).1 = _
  rw [getImageFileName_eq, if_neg hne]
  exact hname

/-- The End event takes the name out of the map. -/
theorem Inv.ended (h : Inv files locale r) (pid : UInt64) :
    Inv files locale
      ⟨{ r.state with processMap := removeProcess r.state.processMap pid },
        r.log ++ [.ended pid]⟩ := by
  refine ⟨h.fresh.snoc_mark (by simp), ?_⟩
  intro p process maps hsince hcached
  have hlog : sinceStep p (since r.log p) (.ended pid) = some (process, maps) := by
    rw [← since_snoc]
    exact hsince
  have hstate := cachedName_removeProcess r.state.processMap r.state.kWin32Path pid p
  by_cases hp : pid = p
  · -- No process runs under the PID afterwards.
    subst hp
    simp [sinceStep] at hlog
  · rw [if_neg (Ne.symm hp)] at hstate
    rw [hstate] at hcached ⊢
    exact h.name p process maps (by simpa [sinceStep, hp] using hlog) hcached

/-- Names are not changed by `AddProcess`. -/
theorem Inv.added (h : Inv files locale r) (ppidReal ppidAdopted time : UInt64) :
    Inv files locale { r with state := { r.state with
      processMap := updateProcessCreationTime
        (addProcess r.state.processMap pid ppidReal ppidAdopted) pid time } } := by
  refine ⟨h.fresh, ?_⟩
  intro p process maps hsince hcached
  have hstate := cachedName_addProcess r.state.processMap r.state.kWin32Path pid
    ppidReal ppidAdopted time p
  rw [hstate] at hcached ⊢
  exact h.name p process maps hsince hcached

/-- A call leaves the processes that run. -/
theorem Run.ask_running (r : Run) (p : UInt64) :
    running (r.ask files locale owners pid).log p = running r.log p := by
  have hlog : since (r.ask files locale owners pid).log p =
      if pid = p then (since r.log p).map fun s => (s.1, s.2 ++ [r.state.kWin32Path])
      else since r.log p := since_snoc _ _ _
  unfold running
  rw [hlog]
  by_cases hp : pid = p
  · rw [if_pos hp, Option.map_map]
    rfl
  · rw [if_neg hp]

/-- A call leaves the names that are in the map. -/
theorem Run.ask_cachedName (r : Run) {p : UInt64} (h : cachedName r.state p ≠ []) :
    cachedName (r.ask files locale owners pid).state p ≠ [] := by
  have hstate : cachedName (r.ask files locale owners pid).state p = _ :=
    cachedName_getImageFileName p
  rw [hstate]
  by_cases hp : p = pid
  · subst hp
    rw [if_pos rfl, getImageFileName_eq, if_neg h]
    exact h
  · rw [if_neg hp]
    exact h

/-- A question about any process keeps what is known of one. -/
theorem Known.ask {p : UInt64} (h : Known owners r.state (running r.log p) p) :
    Known owners (r.ask files locale owners pid).state
      (running (r.ask files locale owners pid).log p) p := by
  intro process hrunning
  rw [Run.ask_running] at hrunning
  exact (h process hrunning).imp_left r.ask_cachedName

/-- A new process runs under its PID. -/
theorem running_started (log : List Entry) (process : Process) (p : UInt64) :
    running (log ++ [.started pid process]) p =
      if pid = p then some process else running log p := by
  unfold running
  rw [since_snoc]
  show Option.map _ (if pid = p then some (process, []) else since log p) = _
  by_cases hp : pid = p
  · rw [if_pos hp, if_pos hp]
    rfl
  · rw [if_neg hp, if_neg hp]

/-- An event keeps the invariant. -/
theorem Inv.step (h : Inv files locale r) {event : ProcessEvent}
    (howned : Owned files locale owners r event) :
    Inv files locale (r.step files locale owners event) := by
  have hknown := howned.known
  cases event with
  | start e process =>
    -- The event, three calls, and the new entry. What is known holds at each of the calls, because
    -- the calls before it change neither the processes that run nor the names that are there.
    have hknown0 : ∀ p ∈ asked (.start e process), Known owners r.state
        (running (r.log ++ [.started e.pid process]) p) p := by
      intro p hp
      rw [running_started]
      exact hknown p hp
    have h1 : Inv files locale (Run.ask files locale owners
        { r with log := r.log ++ [.started e.pid process] } (castInt e.pid)) := by
      by_cases hempty : cachedName r.state e.pid = []
      · exact (h.started hempty process).ask (hknown0 (castInt e.pid) (by simp [asked]))
      · obtain ⟨hcast, hname⟩ := (howned.forgotten e process rfl).resolve_left hempty
        rw [hcast]
        exact h.started_ask hempty hname
    have h2 := h1.ask (hknown0 (castInt e.processId) (by simp [asked])).ask
    have h3 := h2.ask (hknown0 (castInt e.ppid) (by simp [asked])).ask.ask
    exact h3.added _ _ _
  | stop pid => exact (h.ask (hknown pid (by simp [asked]))).ended pid
  | query pid => exact h.ask (hknown pid (by simp [asked]))

/-- The induction is on the events. -/
theorem Inv.run (h : Inv files locale r) {events : List (Owners × ProcessEvent)}
    (howned : AllOwned files locale r events) :
    Inv files locale (events.foldl (fun r e => r.step files locale e.1 e.2) r) := by
  induction events generalizing r with
  | nil => exact h
  | cons e events ih => exact ih (h.step howned.1) howned.2

end

/-- In a run whose events all meet the condition, every answer for a PID is the path of the process
that was started under it last. -/
theorem freshLog_of_owned (files : NtFiles) (locale : Locale)
    (events : List (Owners × ProcessEvent)) (h : AllOwned files locale .initial events) :
    FreshLog files locale (runEvents files locale events).log :=
  (inv_initial.run h).fresh

/-- Two programs that are started one after the other under the PID 8. -/
def firstProcess : Process := ⟨wide "\\Device\\V\\a", by decide⟩

/-- Another process with the same PID. -/
def secondProcess : Process := ⟨wide "\\Device\\V\\j\\x", by decide⟩

/-- The PID 8 belongs to a process. The other PIDs run the first program. -/
def ownedBy (process : Process) : Owners := fun pid =>
  if pid = 8 then some process else some firstProcess

/-- PID 8 is asked for while a process runs under it. -/
def queryWhileRunning : List (Owners × ProcessEvent) :=
  [(ownedBy firstProcess, .start ⟨8, 4, 4, 0⟩ firstProcess), (ownedBy firstProcess, .query 8),
    (ownedBy firstProcess, .stop 8)]

/-- PID 8 is asked for after the first process has ended. -/
def queryAfterEnd : List (Owners × ProcessEvent) :=
  [(ownedBy firstProcess, .start ⟨8, 4, 4, 0⟩ firstProcess), (ownedBy firstProcess, .stop 8),
    (ownedBy firstProcess, .query 8)]

/-- The second process is started, and then its image is asked for. -/
def reuse : List (Owners × ProcessEvent) :=
  [(ownedBy secondProcess, .start ⟨8, 4, 4, 0⟩ secondProcess), (ownedBy secondProcess, .query 8)]

/-- The condition on an event, as it is decided for given events. -/
theorem Owned.of_decided {files : NtFiles} {locale : Locale} {owners : Owners} {r : Run}
    {event : ProcessEvent}
    (hforgotten : ∀ e process, event = .start e process →
      Forgotten files locale r.state e.pid process)
    (hknown : ((asked event).all fun pid => runningAt r.log pid event = none ∨
      cachedName r.state pid ≠ [] ∨ owners pid.toUInt32 = runningAt r.log pid event) = true) :
    Owned files locale owners r event := by
  refine ⟨hforgotten, ?_⟩
  intro pid hpid process hrunning
  rcases of_decide_eq_true (List.all_eq_true.mp hknown pid hpid) with hnone | hname | howner
  · rw [hrunning] at hnone
    cases hnone
  · exact .inl hname
  · exact .inr (howner.trans hrunning)

/-- The images can be found out at each start, so no question gets a stale path. -/
theorem freshLog_of_owned_reuse :
    FreshLog junctionFiles .asciiOnly
      (runEvents junctionFiles .asciiOnly (queryWhileRunning ++ reuse)).log := by
  refine freshLog_of_owned junctionFiles .asciiOnly (queryWhileRunning ++ reuse)
    ⟨.of_decided ?_ (by decide), .of_decided (by simp) (by decide),
      .of_decided (by simp) (by decide), .of_decided ?_ (by decide),
      .of_decided (by simp) (by decide), trivial⟩
  · intro e process he
    cases he
    exact .inl (by decide)
  · intro e process he
    cases he
    exact .inl (by decide)

/-- The second process then has the image of the first one. -/
theorem not_freshLog_queryAfterEnd :
    (getImageFileName junctionFiles .asciiOnly (ownedBy secondProcess)
        (runEvents junctionFiles .asciiOnly (queryAfterEnd ++ reuse)).state 8).1 = wide "c:\\a" ∧
      ¬ FreshLog junctionFiles .asciiOnly
        (runEvents junctionFiles .asciiOnly (queryAfterEnd ++ reuse)).log := by
  refine ⟨by decide, fun h => ?_⟩
  -- The state before the second start, and before the last query.
  let r := runEvents junctionFiles .asciiOnly queryAfterEnd
  let r' := r.onStart junctionFiles .asciiOnly (ownedBy secondProcess) ⟨8, 4, 4, 0⟩ secondProcess
  have hsince : since r'.log 8 = some (secondProcess, [r.state.kWin32Path]) := rfl
  obtain ⟨m, hm, heq⟩ := h r'.log 8 r'.state.kWin32Path _ (List.prefix_refl _) _ _ hsince
  have hanswer : (getImageFileName junctionFiles .asciiOnly (ownedBy secondProcess) r'.state 8).1 =
      wide "c:\\a" := by decide
  have hpath : ∀ m ∈ [r.state.kWin32Path] ++ [r'.state.kWin32Path],
      imagePath junctionFiles .asciiOnly m secondProcess = wide "c:\\j\\x" := by decide
  have hsame : wide "c:\\a" = wide "c:\\j\\x" := hanswer.symm.trans (heq.trans (hpath m hm))
  exact absurd hsame (by decide)

end KernelEventsTrace.EtwService.Manager
