import KernelEventsTrace.Driver.Function.SelfDefenseRun
import KernelEventsTrace.Proofs.SelfDefense.Lookup

/-!
# `KernelEventsTrace.Proofs.SelfDefense.Handles`: protected processes over whole runs

`kProcessMap` is keyed by PID, and an entry outlives the process it was made for if a handle
to the process is opened after its termination notification. `Insert` then keeps that entry
when the PID goes to another process.

`World.Inv` is the invariant that the guard rests on: the entry of a running process agrees
with its image and its ancestors, and does not start later. Every event keeps it, except a
creation notification that finds an entry of an earlier process. `World.Fresh` excludes
those. `World.Reachable.restricted` says that in every run of fresh events no unprotected
process gets a dangerous right to a protected one.
-/

set_option autoImplicit false

namespace KernelEventsTrace.Driver.SelfDefense

open KernelEventsTrace.Driver.Std (KString WChar)

/-! ### Rights -/

/-- A right that was cleared is gone. -/
theorem clearRight_self (a r : Dword) : clearRight a r &&& r = 0#32 := by
  unfold clearRight
  by_cases h : a &&& r = 0#32
  · rw [if_neg (fun hne => hne h), h]
  · rw [if_pos h, BitVec.and_assoc, BitVec.and_comm (~~~r), BitVec.and_not_self]
    exact BitVec.and_zero

/-- A right that is not set stays so. -/
theorem clearRight_keep {a s : Dword} (r : Dword) (h : a &&& s = 0#32) :
    clearRight a r &&& s = 0#32 := by
  unfold clearRight
  split
  · rw [BitVec.and_assoc, BitVec.and_comm (~~~r), ← BitVec.and_assoc, h, BitVec.zero_and]
  · exact h

/-- The rights of the list are gone after all of them were cleared. The induction is on the
list, with the rights that are gone already in `h`. -/
theorem foldl_clearRight {s : Dword} (rights : List Dword) :
    ∀ a, (a &&& s = 0#32 ∨ s ∈ rights) → rights.foldl clearRight a &&& s = 0#32 := by
  induction rights with
  | nil =>
    intro a h
    simpa using h
  | cons r rights ih =>
    intro a h
    rw [List.foldl_cons]
    apply ih
    rcases h with h | h
    · exact Or.inl (clearRight_keep r h)
    · rcases List.mem_cons.mp h with rfl | h
      · exact Or.inl (clearRight_self a s)
      · exact Or.inr h

/-- `PreObCallback` leaves no blocked right on a handle to a process. -/
theorem restrictAccess_process (pid : Pid) (a : Dword) {right : Dword}
    (h : right ∈ blockedProcessRights) : restrictAccess (.process pid) a &&& right = 0#32 :=
  foldl_clearRight blockedProcessRights a (Or.inr h)

/-! ### Entries that agree with their process -/

/-- The process or one of its ancestors has its image in a protected directory. -/
def Process.Protected (dirs : List (KString WChar)) (p : Process) : Prop :=
  InProtectedDirectory dirs (.of p.path) ∨
    ∃ path ∈ p.ancestors, InProtectedDirectory dirs (.of path)

/-- The images of the process and of its ancestors are compared with the directories. -/
instance (dirs : List (KString WChar)) (p : Process) : Decidable (p.Protected dirs) :=
  inferInstanceAs (Decidable (_ ∨ _))

/-- The mark of an entry is right for the process. -/
structure Agrees (dirs : List (KString WChar)) (p : Process) (e : ProcessInfo) : Prop where
  marked : InProtectedDirectory dirs (.of p.path) → e.isProtected = true
  justified : e.isProtected = true → p.Protected dirs

namespace World

/-- The event finds no entry of an earlier process: at a creation notification, an entry of the
PID is marked if the image lies in a protected directory, and only if it does or the creator or
an ancestor is protected. -/
def Fresh (w : World) : Event → Prop
  | .notifyCreation creator pid now => ∀ p c e, w.procs pid = some p → w.procs creator = some c →
      w.globals.processMap pid = some e →
      Agrees w.globals.protectedDirList (started p c now) e
  | _ => True

/-- The worlds that fresh events lead to, from any processes and no entries. -/
inductive Reachable : World → Prop where
  | start {w : World} : (∀ pid, w.globals.processMap pid = none) → Reachable w
  | step {w w' : World} (ev : Event) :
      Reachable w → w.Fresh ev → w.step ev = some w' → Reachable w'

/-! ### What an event does -/

section
variable {w w' : World}

/-- A process comes into being under a free PID. -/
theorem step_spawn {pid : Pid} {path : List WChar} (h : w.step (.spawn pid path) = some w') :
    w.free pid = true ∧
      w' = { w with
        procs := Function.update w.procs pid
          (some { path := path, ancestors := [], phase := .spawned, created := 0 }) } := by
  by_cases hfree : w.free pid = true
  · simp only [World.step, hfree, if_true, Option.some.injEq] at h
    exact ⟨hfree, h.symm⟩
  · simp [World.step, hfree] at h

/-- The creation is notified while the creator is running. -/
theorem step_notifyCreation {creator pid : Pid} {now : Time}
    (h : w.step (.notifyCreation creator pid now) = some w') :
    ∃ p c, w.procs pid = some p ∧ p.phase = .spawned ∧ w.procs creator = some c ∧
      c.phase = .running ∧
      w' = { procs := Function.update w.procs pid (some (started p c now)),
             globals := notifyCreation w.query w.globals creator pid now } := by
  cases hp : w.procs pid with
  | none => simp [World.step, hp] at h
  | some p =>
    cases hc : w.procs creator with
    | none => simp [World.step, hp, hc] at h
    | some c =>
      by_cases hphase : p.phase = .spawned ∧ c.phase = .running
      · simp only [World.step, hp, hc, if_pos hphase, Option.some.injEq] at h
        exact ⟨p, c, rfl, hphase.1, rfl, hphase.2, h.symm⟩
      · simp [World.step, hp, hc, hphase] at h

/-- The termination is notified while the process is running. -/
theorem step_notifyTermination {pid : Pid} (h : w.step (.notifyTermination pid) = some w') :
    ∃ p, w.procs pid = some p ∧ p.phase = .running ∧
      w' = { procs := Function.update w.procs pid (some { p with phase := .exited }),
             globals := notifyTermination w.globals pid } := by
  cases hp : w.procs pid with
  | none => simp [World.step, hp] at h
  | some p =>
    by_cases hrun : p.phase = .running
    · simp only [World.step, hp, if_pos hrun, Option.some.injEq] at h
      exact ⟨p, rfl, hrun, h.symm⟩
    · simp [World.step, hp, hrun] at h

/-- Any process can be asked for. -/
theorem step_query {pid : Pid} (h : w.step (.query pid) = some w') :
    (∃ p, w.procs pid = some p) ∧
      w' = { w with globals := (isProtectedProcess w.query w.globals pid).2 } := by
  by_cases hsome : (w.procs pid).isSome
  · simp only [World.step, if_pos hsome, Option.some.injEq] at h
    exact ⟨Option.isSome_iff_exists.mp hsome, h.symm⟩
  · simp [World.step, hsome] at h

/-- A handle is asked for by one process and refers to another. -/
theorem step_createHandle {op : ObRequest} (h : w.step (.createHandle op) = some w') :
    (∃ s, w.procs op.sourcePid = some s) ∧ (∃ t, w.procs op.object.targetPid = some t) ∧
      w' = { w with globals := (preObCallback w.query w.globals op).2 } := by
  by_cases hsome : (w.procs op.sourcePid).isSome ∧ (w.procs op.object.targetPid).isSome
  · simp only [World.step, if_pos hsome, Option.some.injEq] at h
    exact ⟨Option.isSome_iff_exists.mp hsome.1, Option.isSome_iff_exists.mp hsome.2, h.symm⟩
  · simp [World.step, hsome] at h

end

/-! ### The invariant -/

/-- What the guard relies on for one entry, next to the process that has its PID. -/
structure EntryInv (dirs : List (KString WChar)) (proc : Option Process) (e : ProcessInfo) :
    Prop where
  /-- An entry with a path in a protected directory is marked. -/
  path : InProtectedDirectory dirs e.processPath → e.isProtected = true
  /-- The entry of a running process is right, and starts with it or at time zero. -/
  running : ∀ p, proc = some p → p.phase = .running →
    Agrees dirs p e ∧ (e.startTime = 0 ∨ e.startTime = p.created)
  /-- Any other entry starts at time zero. -/
  start : (∀ p, proc = some p → p.phase ≠ .running) → e.startTime = 0

/-- The invariant of `kProcessMap` next to the processes of the system. -/
def Inv (w : World) : Prop :=
  ∀ pid e, w.globals.processMap pid = some e →
    EntryInv w.globals.protectedDirList (w.procs pid) e

/-- A change at one PID keeps the invariant if the new entry fits the new process. -/
theorem Inv.update {w w' : World} (h : w.Inv) (pid : Pid)
    (hdirs : w'.globals.protectedDirList = w.globals.protectedDirList)
    (hmap : ∀ q, q ≠ pid → w'.globals.processMap q = w.globals.processMap q)
    (hprocs : ∀ q, q ≠ pid → w'.procs q = w.procs q)
    (hnew : ∀ e, w'.globals.processMap pid = some e →
      EntryInv w.globals.protectedDirList (w'.procs pid) e) : w'.Inv := by
  intro q e he
  rw [hdirs]
  by_cases hq : q = pid
  · subst hq
    exact hnew e he
  · rw [hmap q hq] at he
    rw [hprocs q hq]
    exact h q e he

/-- The lookup of an existing process gives its image path. -/
theorem query_imageName {w : World} {pid : Pid} {p : Process} (h : w.procs pid = some p) :
    (w.query pid).imageName = .of p.path := by
  unfold query
  rw [h]
  rfl

/-- The entry that is made from the image of a process fits it. -/
theorem entryInv_queriedInfo {w : World} {pid : Pid} {p : Process}
    (hp : w.procs pid = some p) :
    EntryInv w.globals.protectedDirList (some p)
      (queriedInfo w.query w.globals.protectedDirList pid) := by
  have hname := query_imageName hp
  have hmark : (queriedInfo w.query w.globals.protectedDirList pid).isProtected = true ↔
      InProtectedDirectory w.globals.protectedDirList (.of p.path) := by
    rw [← hname]
    exact isInProtectedDirectory_iff
  have hpath : (queriedInfo w.query w.globals.protectedDirList pid).processPath = .of p.path := by
    show (w.query pid).imageName.copy = _
    rw [hname]
    rfl
  refine ⟨?_, ?_, fun _ => rfl⟩
  · rw [hpath]
    exact hmark.mpr
  · intro p' hp' _
    obtain rfl := Option.some.inj hp'
    exact ⟨⟨hmark.mpr, fun h => Or.inl (hmark.mp h)⟩, Or.inl rfl⟩

/-- `IsProtectedProcess` keeps the invariant: a new entry is made from the process at hand. -/
theorem Inv.of_isProtectedProcess {w : World} (h : w.Inv) {pid : Pid} {p : Process}
    (hp : w.procs pid = some p) :
    Inv { w with globals := (isProtectedProcess w.query w.globals pid).2 } := by
  cases he : w.globals.processMap pid with
  | some it =>
    rw [isProtectedProcess_of_some he]
    exact h
  | none =>
    rw [isProtectedProcess_of_none he]
    refine h.update pid rfl (fun q hq => Function.update_of_ne hq _ _) (fun q _ => rfl) ?_
    intro e hnew
    rw [show e = queriedInfo w.query w.globals.protectedDirList pid by
      simpa [eq_comm] using hnew]
    show EntryInv _ (w.procs pid) _
    rw [hp]
    exact entryInv_queriedInfo hp

/-- A request for a handle keeps the invariant. -/
theorem Inv.of_preObCallback {w : World} (h : w.Inv) {op : ObRequest} {s t : Process}
    (hs : w.procs op.sourcePid = some s) (ht : w.procs op.object.targetPid = some t) :
    Inv { w with globals := (preObCallback w.query w.globals op).2 } := by
  have h1 := h.of_isProtectedProcess hs
  rcases preObCallback_globals w.query w.globals op with heq | heq | heq <;> rw [heq]
  · exact h
  · exact h1
  · exact h1.of_isProtectedProcess ht

/-- An entry of a process that is not running stays right when another one takes the PID and
does not run yet. -/
theorem EntryInv.of_not_running {dirs : List (KString WChar)} {proc : Option Process}
    {e : ProcessInfo} (h : EntryInv dirs proc e) (hold : ∀ p, proc = some p → p.phase ≠ .running)
    {p : Process} (hp : p.phase ≠ .running) : EntryInv dirs (some p) e := by
  refine ⟨h.path, ?_, fun _ => h.start hold⟩
  intro p' hp' hrun
  obtain rfl := Option.some.inj hp'
  exact absurd hrun hp

/-- A mark that is inherited from the creator is justified. -/
theorem Inv.protected_of_parent {w : World} (h : w.Inv) {creator : Pid} {c : Process}
    (hc : w.procs creator = some c) (hrun : c.phase = .running)
    (hmark : parentProtected w.globals creator = true) :
    c.Protected w.globals.protectedDirList := by
  unfold parentProtected at hmark
  cases he : w.globals.processMap creator with
  | none =>
    rw [he] at hmark
    cases hmark
  | some e =>
    rw [he] at hmark
    exact ((h creator e he).running c hc hrun).1.justified hmark

/-- A process whose creator is protected has a protected ancestor. -/
theorem protected_started {dirs : List (KString WChar)} {c : Process}
    (h : c.Protected dirs) (p : Process) (now : Time) : (started p c now).Protected dirs := by
  right
  rcases h with h | ⟨path, hpath, h⟩
  · exact ⟨c.path, List.mem_cons_self, h⟩
  · exact ⟨path, List.mem_cons_of_mem _ hpath, h⟩

/-- The entry that the creation notification makes fits the process. -/
theorem Inv.entryInv_notifyCreation {w : World} (h : w.Inv) {creator pid : Pid} {p c : Process}
    {now : Time} (hp : w.procs pid = some p) (hphase : p.phase = .spawned)
    (hc : w.procs creator = some c) (hrun : c.phase = .running)
    (hfresh : w.Fresh (.notifyCreation creator pid now)) {e : ProcessInfo}
    (he : (notifyCreation w.query w.globals creator pid now).processMap pid = some e) :
    EntryInv w.globals.protectedDirList (some (started p c now)) e := by
  unfold notifyCreation ProcessMap.insert at he
  cases hold : w.globals.processMap pid with
  | some e0 =>
    -- `Insert` keeps the entry that is there, which agrees with the process.
    have hagrees := hfresh p c e0 hp hc hold
    have hinv := h pid e0 hold
    simp only [hold, Option.some.injEq] at he
    subst he
    refine ⟨hinv.path, ?_, ?_⟩
    · intro p' hp' _
      obtain rfl := Option.some.inj hp'
      refine ⟨hagrees, Or.inl (hinv.start ?_)⟩
      intro p0 hp0 hrun0
      rw [hp] at hp0
      obtain rfl := Option.some.inj hp0
      rw [hphase] at hrun0
      cases hrun0
    · intro hnone
      exact absurd rfl (hnone _ rfl)
  | none =>
    -- The new entry is made from the image, or from the mark of the creator.
    have hname : getProcessImageName w.query w.globals pid = .of p.path := by
      unfold getProcessImageName
      rw [hold]
      exact query_imageName hp
    simp only [hold, hname, Function.update_self, Option.some.injEq] at he
    subst he
    have hmarked : InProtectedDirectory w.globals.protectedDirList (.of p.path) →
        (if isInProtectedDirectory w.globals.protectedDirList (.of p.path) = false then
          parentProtected w.globals creator else true) = true := by
      intro hin
      rw [isInProtectedDirectory_iff.mpr hin]
      rfl
    refine ⟨hmarked, ?_, ?_⟩
    · intro p' hp' _
      obtain rfl := Option.some.inj hp'
      refine ⟨⟨hmarked, ?_⟩, Or.inr rfl⟩
      intro hmark
      by_cases hin : isInProtectedDirectory w.globals.protectedDirList (.of p.path) = true
      · exact Or.inl (isInProtectedDirectory_iff.mp hin)
      · simp only [hin, if_true] at hmark
        exact protected_started (h.protected_of_parent hc hrun hmark) p now
    · intro hnone
      exact absurd rfl (hnone _ rfl)

/-- Every fresh event keeps the invariant. -/
theorem Inv.step {w w' : World} (h : w.Inv) {ev : Event} (hfresh : w.Fresh ev)
    (hstep : w.step ev = some w') : w'.Inv := by
  cases ev with
  | spawn pid path =>
    obtain ⟨hfree, rfl⟩ := step_spawn hstep
    refine h.update pid rfl (fun q _ => rfl) (fun q hq => Function.update_of_ne hq _ _) ?_
    intro e he
    show EntryInv _ (Function.update w.procs pid _ pid) e
    rw [Function.update_self]
    -- Whatever had the PID does not run any more.
    refine (h pid e he).of_not_running ?_ (by simp)
    intro p hp hrun
    unfold free at hfree
    simp [hp, hrun] at hfree
  | notifyCreation creator pid now =>
    obtain ⟨p, c, hp, hphase, hc, hrun, rfl⟩ := step_notifyCreation hstep
    refine h.update pid rfl (fun q hq => ProcessMap.insert_of_ne _ hq _)
      (fun q hq => Function.update_of_ne hq _ _) ?_
    intro e he
    show EntryInv _ (Function.update w.procs pid _ pid) e
    rw [Function.update_self]
    exact h.entryInv_notifyCreation hp hphase hc hrun hfresh he
  | notifyTermination pid =>
    obtain ⟨p, hp, hrun, rfl⟩ := step_notifyTermination hstep
    refine h.update pid rfl (fun q hq => Function.update_of_ne hq _ _)
      (fun q hq => Function.update_of_ne hq _ _) ?_
    -- The notification removed the entry.
    intro e he
    exact absurd rfl (ProcessMap.erase_eq_some_iff.mp he).1
  | query pid =>
    obtain ⟨⟨p, hp⟩, rfl⟩ := step_query hstep
    exact h.of_isProtectedProcess hp
  | createHandle op =>
    obtain ⟨⟨s, hs⟩, ⟨t, ht⟩, rfl⟩ := step_createHandle hstep
    exact h.of_preObCallback hs ht

/-- Every world that fresh events lead to satisfies the invariant. -/
theorem Reachable.inv {w : World} (h : w.Reachable) : w.Inv := by
  induction h with
  | start hnone =>
    intro pid e he
    rw [hnone pid] at he
    cases he
  | step ev _ hfresh hstep ih => exact ih.step hfresh hstep

/-- `IsProtectedProcess` is false for a process that is neither in a protected directory nor has
a protected ancestor. -/
theorem Inv.isProtectedProcess_eq_false {w : World} (h : w.Inv) {pid : Pid} {p : Process}
    (hp : w.procs pid = some p) (hrun : p.phase = .running)
    (hnot : ¬ p.Protected w.globals.protectedDirList) :
    (isProtectedProcess w.query w.globals pid).1 = false := by
  cases he : w.globals.processMap pid with
  | some e =>
    have hinv := h pid e he
    have hmark : ¬ e.isProtected = true := fun hm =>
      hnot ((hinv.running p hp hrun).1.justified hm)
    have hpath := isInProtectedDirectory_eq_false_iff.mpr fun hin => hmark (hinv.path hin)
    rw [isProtectedProcess_of_some he]
    simp [hmark, hpath]
  | none =>
    rw [isProtectedProcess_of_none he, query_imageName hp]
    exact isInProtectedDirectory_eq_false_iff.mpr fun hin => hnot (Or.inl hin)

/-- `IsProtectedProcess` is true for a process in a protected directory. -/
theorem Inv.isProtectedProcess_eq_true {w : World} (h : w.Inv) {pid : Pid} {p : Process}
    (hp : w.procs pid = some p) (hrun : p.phase = .running)
    (hin : InProtectedDirectory w.globals.protectedDirList (.of p.path)) :
    (isProtectedProcess w.query w.globals pid).1 = true := by
  cases he : w.globals.processMap pid with
  | some e =>
    have hmark := (((h pid e he).running p hp hrun).1).marked hin
    rw [isProtectedProcess_of_some he]
    simp [hmark]
  | none =>
    rw [isProtectedProcess_of_none he, query_imageName hp]
    exact isInProtectedDirectory_iff.mpr hin

/-- A running process has not started recently once it has run for 0.5 s. -/
theorem Inv.startedRecently_eq_false {w : World} (h : w.Inv) {pid : Pid} {p : Process}
    (hp : w.procs pid = some p) (hrun : p.phase = .running) {currTime : Time}
    (hage : p.created.toNat + 5000000 ≤ currTime.toNat) :
    startedRecently w.globals pid currTime = false := by
  unfold startedRecently
  cases he : w.globals.processMap pid with
  | none => rfl
  | some e =>
    -- The entry starts at time zero or with the process, so the difference does not wrap.
    have hdiff : ¬ currTime - e.startTime < 5000000#64 := by
      have hlt := currTime.isLt
      rcases ((h pid e he).running p hp hrun).2 with hs | hs <;> rw [hs] <;>
        bv_omega
    exact decide_eq_false hdiff

/-- The guard takes the blocked rights from a handle to a process in a protected directory. -/
theorem Inv.preObCallback_eq {w : World} (h : w.Inv) {op : ObRequest} {s t : Process}
    {target : Pid} (huser : op.kernelHandle = false ∧ op.previousMode = .userMode)
    (hobject : op.object = .process target) (hne : op.sourcePid ≠ target)
    (hs : w.procs op.sourcePid = some s) (hsrun : s.phase = .running)
    (hsource : ¬ s.Protected w.globals.protectedDirList)
    (ht : w.procs target = some t) (htrun : t.phase = .running)
    (htarget : InProtectedDirectory w.globals.protectedDirList (.of t.path))
    (hage : t.created.toNat + 5000000 ≤ op.currTime.toNat) :
    (preObCallback w.query w.globals op).1 = restrictAccess op.object op.desiredAccess := by
  have hfalse := h.isProtectedProcess_eq_false hs hsrun hsource
  have h1 := h.of_isProtectedProcess hs
  have htrue := h1.isProtectedProcess_eq_true ht htrun (by simpa using htarget)
  have h2 := h1.of_isProtectedProcess ht
  have hold := h2.startedRecently_eq_false ht htrun hage
  have htp : op.object.targetPid = target := by
    rw [hobject]
    rfl
  have hmode : ¬ (op.kernelHandle = true ∨ op.previousMode = .kernelMode) := by
    rw [huser.1, huser.2]
    simp
  unfold preObCallback
  rw [htp, if_neg hmode, if_neg hne]
  -- The source is not protected, the target is, and it is old enough.
  rcases hg1 : isProtectedProcess w.query w.globals op.sourcePid with ⟨source, g1⟩
  rw [hg1] at hfalse htrue hold
  rcases hg2 : isProtectedProcess w.query g1 target with ⟨targetProtected, g2⟩
  change (isProtectedProcess w.query g1 target).1 = true at htrue
  change startedRecently (isProtectedProcess w.query g1 target).2 target op.currTime = false
    at hold
  rw [hg2] at htrue hold
  simp only at hfalse htrue hold
  simp only [hfalse, hg2, htrue, hold, Bool.false_eq_true, if_false, Bool.not_true]

/-- In every run of fresh events, a user request for a handle to a running process in a protected
directory, by a running process that is neither in one nor has a protected ancestor, is left
without the blocked rights once the target has run for 0.5 s. -/
theorem Reachable.restricted {w : World} (h : w.Reachable) (op : ObRequest) {s t : Process}
    {target : Pid} (huser : op.kernelHandle = false ∧ op.previousMode = .userMode)
    (hobject : op.object = .process target) (hne : op.sourcePid ≠ target)
    (hs : w.procs op.sourcePid = some s) (hsrun : s.phase = .running)
    (hsource : ¬ s.Protected w.globals.protectedDirList)
    (ht : w.procs target = some t) (htrun : t.phase = .running)
    (htarget : InProtectedDirectory w.globals.protectedDirList (.of t.path))
    (hage : t.created.toNat + 5000000 ≤ op.currTime.toNat) :
    ∀ right ∈ blockedProcessRights,
      (preObCallback w.query w.globals op).1 &&& right = 0#32 := by
  intro right hright
  rw [h.inv.preObCallback_eq huser hobject hne hs hsrun hsource ht htrun htarget hage, hobject]
  exact restrictAccess_process target op.desiredAccess hright

/-- A freshly loaded driver that protects one directory, next to the unprotected process 4. -/
def loaded : World where
  procs := Function.update (fun _ => none) 4
    (some { path := [67], ancestors := [], phase := .running, created := 0 })
  globals := { processMap := fun _ => none, protectedDirList := [.of [69, 92]],
               enableProtectFile := true }

/-- Process 4 asks for a handle to process 8, with the right to terminate it. -/
def openToTerminate (currTime : Time) : ObRequest where
  kernelHandle := false
  previousMode := .userMode
  sourcePid := 4
  object := .process 8
  desiredAccess := PROCESS_TERMINATE
  currTime := currTime

/-- Process 8 is created from the protected directory. Process 4 gets no right to terminate it
half a second later. -/
theorem loaded_restricted : ∃ w,
    loaded.run [.spawn 8 [69, 92, 97], .notifyCreation 4 8 100#64] = some w ∧
      (preObCallback w.query w.globals (openToTerminate 5000100#64)).1 &&& PROCESS_TERMINATE =
        0#32 := by
  have h0 : loaded.Reachable := .start fun _ => rfl
  have h1 := Reachable.step (.spawn 8 [69, 92, 97]) h0 trivial rfl
  have h2 := Reachable.step (.notifyCreation 4 8 100#64) h1
    (fun p c e _ _ he => by cases he) rfl
  exact ⟨_, rfl, h2.restricted (openToTerminate 5000100#64) ⟨rfl, rfl⟩ rfl (by decide) rfl rfl
    (by decide) rfl rfl (by decide) (by decide) PROCESS_TERMINATE List.mem_cons_self⟩

/-- A handle to process 8 is opened between its termination notification and the reuse of its
PID. The process that takes the PID is in the protected directory, and process 4 keeps the
right to terminate it. -/
theorem loaded_reused : ∃ w s t,
    loaded.run [.spawn 8 [67], .notifyCreation 4 8 0#64, .notifyTermination 8,
        .createHandle (openToTerminate 10#64), .spawn 8 [69, 92, 97],
        .notifyCreation 4 8 100#64] = some w ∧
      w.procs 4 = some s ∧ s.phase = .running ∧ ¬ s.Protected w.globals.protectedDirList ∧
      w.procs 8 = some t ∧ t.phase = .running ∧ t.created = 100#64 ∧
      InProtectedDirectory w.globals.protectedDirList (.of t.path) ∧
      (preObCallback w.query w.globals (openToTerminate 5000100#64)).1 = PROCESS_TERMINATE := by
  exact ⟨_, _, _, rfl, rfl, rfl, by decide, rfl, rfl, rfl, by decide, by decide⟩

end World

end KernelEventsTrace.Driver.SelfDefense
