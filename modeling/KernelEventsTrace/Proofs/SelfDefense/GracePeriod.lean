import KernelEventsTrace.Lib.History
import KernelEventsTrace.Proofs.SelfDefense.Handles
import KernelEventsTrace.Proofs.SelfDefense.Inheritance

/-!
# `KernelEventsTrace.Proofs.SelfDefense.GracePeriod`: the first half second of a process

`PreObCallback` leaves a request alone if the entry of the target is younger than 0.5 s. The
time of the entry is the one of the creation notification only if that notification made the
entry. `Insert` keeps an entry that was there before, and `IsProtectedProcess` makes entries
with the time zero.

`createdAt` reads the time of the creation notification off the events of a run, without
`kProcessMap`. `World.gracePeriod_kept` compares the two: every request in the grace period
keeps its access if no creation notification of the run finds an entry of a protected process,
and no request in the grace period comes after the termination notification of its target. Two
kinds of requests are exempt from the second condition. One has a target outside of the protected
directories. The other never gets to the lookup of its target, or asks for no right that
`PreObCallback` takes away.
-/

set_option autoImplicit false

namespace KernelEventsTrace.Driver.SelfDefense

open KernelEventsTrace.Driver.Std (KString WChar)

/-! ### The time of the creation notification -/

/-- What an event does to the times of the creation notifications. A process that takes a PID
was not notified yet. -/
def Event.createdAt (created : Pid → Option Time) : Event → Pid → Option Time
  | .spawn pid _ => Function.update created pid none
  | .notifyCreation _ pid now => Function.update created pid (some now)
  | _ => created

/-- When the creation of the process that has the PID was notified. -/
def createdAt (events : List Event) : Pid → Option Time :=
  events.foldl Event.createdAt fun _ => none

/-- One more event. -/
theorem createdAt_snoc (events : List Event) (ev : Event) :
    createdAt (events ++ [ev]) = ev.createdAt (createdAt events) := by
  unfold createdAt
  rw [List.foldl_append]
  rfl

/-- Less than 0.5 s after the creation notification. -/
def InGracePeriod (created now : Time) : Prop :=
  created.toNat ≤ now.toNat ∧ now.toNat < created.toNat + 5000000

/-- An entry with the time of the creation notification is young in the grace period. -/
theorem startedRecently_of_inGracePeriod {g : Globals} {pid : Pid} {it : ProcessInfo}
    {now : Time} (hit : g.processMap pid = some it) (hgrace : InGracePeriod it.startTime now) :
    startedRecently g pid now = true := by
  have hdiff : now - it.startTime < 5000000#64 := by
    obtain ⟨hle, hlt⟩ := hgrace
    bv_omega
  unfold startedRecently
  rw [hit]
  exact decide_eq_true hdiff

/-! ### What an entry records -/

/-- `IsProtectedProcess` of a process with this entry. -/
def ProcessInfo.answer (dirs : List (KString WChar)) (it : ProcessInfo) : Bool :=
  it.isProtected || isInProtectedDirectory dirs it.processPath

/-- A new entry answers for the image path of the process. -/
theorem queriedInfo_answer {query : Pid → ImageQuery} {dirs : List (KString WChar)} {pid : Pid}
    {path : List WChar} (himage : (query pid).imageName = .of path) :
    (queriedInfo query dirs pid).answer dirs = isInProtectedDirectory dirs (.of path) := by
  show (isInProtectedDirectory dirs (query pid).imageName ||
    isInProtectedDirectory dirs (query pid).imageName.copy) = _
  rw [himage]
  exact Bool.or_self _

/-- The entry of the process `p`, whose creation was notified at the time `created`. While the
process runs there is an entry, which has this time or answers no. After its termination
notification any entry was made from its image. -/
inductive Recorded (dirs : List (KString WChar)) (created : Time) (p : Process) :
    Option ProcessInfo → Prop where
  | running {it : ProcessInfo} : p.phase = .running →
      (it.answer dirs = true → it.startTime = created) → Recorded dirs created p (some it)
  | exited {entry : Option ProcessInfo} : p.phase = .exited →
      (∀ it, entry = some it → it.answer dirs = true →
        isInProtectedDirectory dirs (.of p.path) = true) →
      Recorded dirs created p entry

section
variable {dirs : List (KString WChar)} {created : Time} {p : Process}

/-- An insertion by `IsProtectedProcess` keeps the record. -/
theorem Recorded.insert {m : ProcessMap} {query : Pid → ImageQuery} {pid : Pid}
    (h : Recorded dirs created p (m pid)) (himage : (query pid).imageName = .of p.path)
    (q : Pid) : Recorded dirs created p (m.insert q (queriedInfo query dirs q) pid) := by
  cases hm : m pid with
  | some it =>
    rw [ProcessMap.insert_eq_some_iff.mpr (.inl hm), ← hm]
    exact h
  | none =>
    -- A running process has an entry, so this one terminated.
    rw [hm] at h
    cases h with
    | exited hphase _ =>
      refine .exited hphase fun it hit hanswer => ?_
      rcases ProcessMap.insert_eq_some_iff.mp hit with hold | ⟨rfl, -, rfl⟩
      · rw [hm] at hold
        cases hold
      · rwa [queriedInfo_answer himage] at hanswer

/-- A recorded process that `IsProtectedProcess` calls protected is young in its grace period, or
it terminated and its image lies in a protected directory. -/
theorem Recorded.of_protected {query : Pid → ImageQuery} {g : Globals} {pid : Pid}
    (h : Recorded g.protectedDirList created p (g.processMap pid))
    (himage : (query pid).imageName = .of p.path)
    (hprot : (isProtectedProcess query g pid).1 = true) :
    (∀ now, InGracePeriod created now →
        startedRecently (isProtectedProcess query g pid).2 pid now = true) ∨
      (p.phase = .exited ∧ isInProtectedDirectory g.protectedDirList (.of p.path) = true) := by
  cases hit : g.processMap pid with
  | some it =>
    rw [isProtectedProcess_of_some hit] at hprot ⊢
    rw [hit] at h
    cases h with
    | running _ hstart =>
      left
      intro now hgrace
      rw [← hstart hprot] at hgrace
      exact startedRecently_of_inGracePeriod hit hgrace
    | exited hphase himg => exact Or.inr ⟨hphase, himg it rfl hprot⟩
  | none =>
    rw [isProtectedProcess_of_none hit, himage] at hprot
    rw [hit] at h
    cases h with
    | exited hphase _ => exact Or.inr ⟨hphase, hprot⟩

end

/-! ### Requests that get to the target -/

/-- A right that is not set needs no clearing. -/
theorem clearRight_of_and_eq_zero {a r : Dword} (h : a &&& r = 0#32) : clearRight a r = a :=
  if_neg (not_not_intro h)

/-- A mask with no bit of the access takes nothing from it. -/
theorem and_not_of_and_eq_zero {a mask : Dword} (h : a &&& mask = 0#32) : a &&& ~~~mask = a := by
  calc a &&& ~~~mask = (a &&& ~~~mask) ||| (a &&& mask) := by rw [h, BitVec.or_zero]
    _ = a &&& (~~~mask ||| mask) := by rw [← BitVec.and_or_distrib_left]
    _ = a := by rw [BitVec.or_comm, BitVec.or_not_self, BitVec.and_allOnes]

/-- The request asks for a right that `PreObCallback` takes from handles to its object. -/
def ObRequest.AsksBlocked (op : ObRequest) : Prop :=
  match op.object with
  | .process _ => ∃ right ∈ blockedProcessRights, op.desiredAccess &&& right ≠ 0#32
  | .thread _ => op.desiredAccess &&& blockedThreadRights ≠ 0#32
  | .other => False

/-- A request that asks for no such right keeps what it asks for. -/
theorem restrictAccess_of_not_asksBlocked {op : ObRequest} (h : ¬ op.AsksBlocked) :
    restrictAccess op.object op.desiredAccess = op.desiredAccess := by
  unfold ObRequest.AsksBlocked at h
  unfold restrictAccess
  cases hobj : op.object with
  | process pid =>
    simp only [hobj, not_exists, not_and, not_not] at h
    show blockedProcessRights.foldl clearRight op.desiredAccess = op.desiredAccess
    refine List.foldlRecOn (motive := fun a => a = op.desiredAccess) _ _ rfl ?_
    intro a ha right hright
    rw [ha]
    exact clearRight_of_and_eq_zero (h right hright)
  | thread pid =>
    simp only [hobj, not_not] at h
    exact and_not_of_and_eq_zero h
  | other => rfl

/-- `PreObCallback` asks whether the target of the request is protected: neither the handle nor
the caller is the kernel's, the source is another process, and the source is not protected. -/
def GetsToTarget (query : Pid → ImageQuery) (g : Globals) (op : ObRequest) : Prop :=
  op.kernelHandle = false ∧ op.previousMode = .userMode ∧ op.sourcePid ≠ op.object.targetPid ∧
    (isProtectedProcess query g op.sourcePid).1 = false

/-- `PreObCallback` leaves the request alone unless it gets to its target, asks for a blocked
right, and finds a target that is protected and did not start recently. -/
theorem preObCallback_unchanged {query : Pid → ImageQuery} {g : Globals} {op : ObRequest}
    (h : GetsToTarget query g op → op.AsksBlocked →
      (isProtectedProcess query (isProtectedProcess query g op.sourcePid).2
        op.object.targetPid).1 = true →
      startedRecently (isProtectedProcess query (isProtectedProcess query g op.sourcePid).2
        op.object.targetPid).2 op.object.targetPid op.currTime = true) :
    (preObCallback query g op).1 = op.desiredAccess := by
  unfold preObCallback
  by_cases hkernel : op.kernelHandle = true ∨ op.previousMode = .kernelMode
  · rw [if_pos hkernel]
  rw [if_neg hkernel]
  by_cases hself : op.sourcePid = op.object.targetPid
  · rw [if_pos hself]
  rw [if_neg hself]
  -- Behind the first tests, an unprotected source gets to the lookup of the target.
  have hgets : (isProtectedProcess query g op.sourcePid).1 = false →
      GetsToTarget query g op := fun hsource => by
    rw [not_or, Bool.not_eq_true] at hkernel
    refine ⟨hkernel.1, ?_, hself, hsource⟩
    cases hmode : op.previousMode with
    | kernelMode => exact absurd hmode hkernel.2
    | userMode => rfl
  rcases hg₁ : isProtectedProcess query g op.sourcePid with ⟨source, g₁⟩
  rw [hg₁] at h hgets
  cases source with
  | true => rfl
  | false =>
    rcases hg₂ : isProtectedProcess query g₁ op.object.targetPid with ⟨target, g₂⟩
    simp only [hg₂] at h
    cases target with
    | false => simp [hg₂]
    | true =>
      -- Only a request that asks for a blocked right has something to lose.
      by_cases hasks : op.AsksBlocked
      · simp [hg₂, h (hgets rfl) hasks rfl]
      · simp [hg₂, restrictAccess_of_not_asksBlocked hasks]

namespace World

/-! ### Conditions on the steps -/

/-- A request in the grace period of its target keeps its access. -/
def GraceKept (events : List Event) (w : World) : Event → Prop
  | .createHandle op => ∀ created, createdAt events op.object.targetPid = some created →
      InGracePeriod created op.currTime →
      (preObCallback w.query w.globals op).1 = op.desiredAccess
  | _ => True

/-- A creation notification finds no entry that `IsProtectedProcess` would answer yes from. A
request in the grace period that gets to its target and asks for a blocked right does not come
after the termination notification of its target, unless the image of the target lies outside of
the protected directories. -/
def StartKept (events : List Event) (w : World) : Event → Prop
  | .notifyCreation _ pid _ => (w.globals.processMap pid).isSome = true →
      (isProtectedProcess w.query w.globals pid).1 = false
  | .createHandle op => GetsToTarget w.query w.globals op → op.AsksBlocked →
      ∀ created p, createdAt events op.object.targetPid = some created →
      InGracePeriod created op.currTime → w.procs op.object.targetPid = some p →
      p.phase = .exited → ¬ InProtectedDirectory w.globals.protectedDirList (.of p.path)
  | _ => True

/-! ### The invariant -/

/-- Every process whose creation was notified is recorded. -/
def Records (events : List Event) (w : World) : Prop :=
  ∀ pid created, createdAt events pid = some created → ∃ p, w.procs pid = some p ∧
    Recorded w.globals.protectedDirList created p (w.globals.processMap pid)

variable {events : List Event} {w w' : World}

/-- `IsProtectedProcess` keeps the records. -/
theorem Records.of_isProtectedProcess (h : w.Records events) (q : Pid) :
    Records events { w with globals := (isProtectedProcess w.query w.globals q).2 } := by
  intro pid created hcreated
  obtain ⟨p, hp, hrec⟩ := h pid created hcreated
  refine ⟨p, hp, ?_⟩
  rw [isProtectedProcess_snd]
  exact hrec.insert (query_imageName hp) q

/-- `PreObCallback` keeps the records. -/
theorem Records.of_preObCallback (h : w.Records events) (op : ObRequest) :
    Records events { w with globals := (preObCallback w.query w.globals op).2 } := by
  have h₁ := h.of_isProtectedProcess op.sourcePid
  rcases preObCallback_globals w.query w.globals op with heq | heq | heq <;> rw [heq]
  · exact h
  · exact h₁
  · exact h₁.of_isProtectedProcess op.object.targetPid

/-- A change at one PID keeps the records of the others. -/
theorem Records.update {ev : Event} (h : w.Records events) (pid : Pid)
    (hdirs : w'.globals.protectedDirList = w.globals.protectedDirList)
    (hmap : ∀ q, q ≠ pid → w'.globals.processMap q = w.globals.processMap q)
    (hprocs : ∀ q, q ≠ pid → w'.procs q = w.procs q)
    (hcreated : ∀ q, q ≠ pid → ev.createdAt (createdAt events) q = createdAt events q)
    (hnew : ∀ created, ev.createdAt (createdAt events) pid = some created →
      ∃ p, w'.procs pid = some p ∧
        Recorded w.globals.protectedDirList created p (w'.globals.processMap pid)) :
    w'.Records (events ++ [ev]) := by
  intro q created hq
  rw [createdAt_snoc] at hq
  rw [hdirs]
  by_cases hne : q = pid
  · subst hne
    exact hnew created hq
  · rw [hmap q hne, hprocs q hne]
    rw [hcreated q hne] at hq
    exact h q created hq

/-- The record that the creation notification leaves. -/
theorem recorded_notifyCreation {creator pid : Pid} {p c : Process} {now : Time}
    (hkept : w.StartKept events (.notifyCreation creator pid now)) :
    Recorded w.globals.protectedDirList now (started p c now)
      ((notifyCreation w.query w.globals creator pid now).processMap pid) := by
  rw [Globals.notifyCreation_eq]
  show Recorded _ now _ (w.globals.processMap.insert pid _ pid)
  cases hold : w.globals.processMap pid with
  | some it =>
    -- `Insert` keeps the entry, with its own time. It answers no.
    have hno : it.answer w.globals.protectedDirList = false := by
      have hkept' := hkept (by rw [hold]; rfl)
      rwa [isProtectedProcess_of_some hold] at hkept'
    rw [ProcessMap.insert_eq_some_iff.mpr (.inl hold)]
    refine .running rfl fun hyes => ?_
    rw [hno] at hyes
    cases hyes
  | none =>
    rw [ProcessMap.insert_eq_some_iff.mpr (.inr ⟨rfl, hold, rfl⟩)]
    exact .running rfl fun _ => rfl

/-- Every event that meets its condition keeps the records. -/
theorem Records.step {ev : Event} (h : w.Records events) (hkept : w.StartKept events ev)
    (hstep : w.step ev = some w') : w'.Records (events ++ [ev]) := by
  cases ev with
  | spawn pid path =>
    obtain ⟨-, rfl⟩ := step_spawn hstep
    refine h.update pid rfl (fun q _ => rfl) (fun q hq => Function.update_of_ne hq _ _)
      (fun q hq => Function.update_of_ne hq _ _) ?_
    -- The new process was not notified.
    intro created hcreated
    have hnone : (Event.spawn pid path).createdAt (createdAt events) pid = none :=
      Function.update_self ..
    rw [hnone] at hcreated
    cases hcreated
  | notifyCreation creator pid now =>
    obtain ⟨p, c, -, -, -, -, rfl⟩ := step_notifyCreation hstep
    refine h.update pid rfl (fun q hq => ProcessMap.insert_of_ne _ hq _)
      (fun q hq => Function.update_of_ne hq _ _) (fun q hq => Function.update_of_ne hq _ _) ?_
    intro created hcreated
    have hnow : (Event.notifyCreation creator pid now).createdAt (createdAt events) pid =
        some now := Function.update_self ..
    rw [hnow] at hcreated
    obtain rfl := Option.some.inj hcreated
    exact ⟨started p c now, Function.update_self .., recorded_notifyCreation hkept⟩
  | notifyTermination pid =>
    obtain ⟨p, -, -, rfl⟩ := step_notifyTermination hstep
    refine h.update pid rfl (fun q hq => Function.update_of_ne hq _ _)
      (fun q hq => Function.update_of_ne hq _ _) (fun q _ => rfl) ?_
    intro created _
    refine ⟨{ p with phase := .exited }, Function.update_self .., .exited rfl ?_⟩
    -- The notification removed the entry.
    intro it hit
    exact absurd rfl (ProcessMap.erase_eq_some_iff.mp hit).1
  | query pid =>
    obtain ⟨-, rfl⟩ := step_query hstep
    intro q created hq
    rw [createdAt_snoc] at hq
    exact h.of_isProtectedProcess pid q created hq
  | createHandle op =>
    obtain ⟨-, -, rfl⟩ := step_createHandle hstep
    intro q created hq
    rw [createdAt_snoc] at hq
    exact h.of_preObCallback op q created hq

/-- With the records, a request that meets the condition keeps its access. -/
theorem Records.graceKept {ev : Event} (h : w.Records events) (hkept : w.StartKept events ev) :
    w.GraceKept events ev := by
  cases ev with
  | createHandle op =>
    intro created hcreated hgrace
    obtain ⟨p, hp, hrec⟩ := h.of_isProtectedProcess op.sourcePid _ created hcreated
    refine preObCallback_unchanged fun hgets hasks hprot => ?_
    rcases hrec.of_protected (query_imageName hp) hprot with hyoung | ⟨hexited, hdir⟩
    · exact hyoung op.currTime hgrace
    · -- The target terminated, and its image would lie in a protected directory.
      rw [isProtectedProcess_protectedDirList] at hdir
      exact absurd (isInProtectedDirectory_iff.mp hdir)
        (hkept hgets hasks created p hcreated hgrace hp hexited)
  | spawn pid path => trivial
  | notifyCreation creator pid now => trivial
  | notifyTermination pid => trivial
  | query pid => trivial

/-- In every run, from any world, whose creation notifications find no entry of a protected
process and whose requests for blocked rights that get to their target in its grace period do not
come after the termination notification of a target in a protected directory, every request in the
grace period of its target keeps its access, whoever makes it. -/
theorem gracePeriod_kept {w₀ : World} {events : List Event}
    (h : AtEachStep World.step w₀ StartKept events) :
    AtEachStep World.step w₀ GraceKept events := by
  have hinit : w₀.Records [] := by
    intro pid created hcreated
    cases hcreated
  exact h.imp (I := Records) hinit (fun _ _ _ _ hrec hkept hstep => hrec.step hkept hstep)
    (fun _ _ _ hrec hkept => hrec.graceKept hkept)

/-- Process 8 is created from the protected directory. Process 4 may terminate it a microsecond
later. -/
theorem loaded_gracePeriod : ∃ w,
    [.spawn 8 [69, 92, 97], .notifyCreation 4 8 133000000000000000#64].foldlM World.step loaded =
        some w ∧
      (isProtectedProcess w.query w.globals 8).1 = true ∧
      (preObCallback w.query w.globals (openToTerminate 133000000000000010#64)).1 =
        PROCESS_TERMINATE := by
  have h₁ : AtEachStep World.step loaded StartKept [.spawn 8 [69, 92, 97]] :=
    atEachStep_snoc_iff.mpr ⟨atEachStep_nil, fun _ _ => trivial⟩
  have h₂ : AtEachStep World.step loaded StartKept
      [.spawn 8 [69, 92, 97], .notifyCreation 4 8 133000000000000000#64] := by
    refine atEachStep_snoc_iff.mpr ⟨h₁, fun w hw => ?_⟩
    obtain rfl := Option.some.inj hw
    intro hsome
    cases hsome
  have h₃ : AtEachStep World.step loaded StartKept
      [.spawn 8 [69, 92, 97], .notifyCreation 4 8 133000000000000000#64,
        .createHandle (openToTerminate 133000000000000010#64)] := by
    refine atEachStep_snoc_iff.mpr ⟨h₂, fun w hw => ?_⟩
    obtain rfl := Option.some.inj hw
    intro _ _ created p _ _ hp hexited
    obtain rfl := Option.some.inj hp
    cases hexited
  have hkept := gracePeriod_kept h₃ _ (.createHandle (openToTerminate 133000000000000010#64))
    (List.prefix_refl ([_, _] ++ [_])) _ rfl 133000000000000000#64 rfl
  exact ⟨_, rfl, by decide, hkept ⟨by decide, by decide⟩⟩

/-- A handle to process 8 is asked for before its creation notification. The entry of time zero
that this makes stays, and a microsecond after the notification process 4 loses the right to
terminate it. -/
theorem loaded_gracePeriod_lost : ¬ AtEachStep World.step loaded GraceKept
    [.spawn 8 [69, 92, 97], .createHandle (openToTerminate 133000000000000000#64),
      .notifyCreation 4 8 133000000000000000#64,
      .createHandle (openToTerminate 133000000000000010#64)] := by
  intro h
  have hkept := h _ (.createHandle (openToTerminate 133000000000000010#64))
    (List.prefix_refl ([_, _, _] ++ [_])) _ rfl 133000000000000000#64 rfl
    ⟨by decide, by decide⟩
  revert hkept
  decide

end World

end KernelEventsTrace.Driver.SelfDefense
