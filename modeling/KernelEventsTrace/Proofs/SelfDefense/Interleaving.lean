import KernelEventsTrace.Driver.Function.Interleaving
import KernelEventsTrace.Proofs.SelfDefense.ProcessMap

/-!
# `KernelEventsTrace.Proofs.SelfDefense.Interleaving`: iterators outside of the sections

An iterator that `Find` returns outside of a section stays valid as long as its entry is not
erased. Nothing but a termination erases entries. So a schedule makes no fault if no termination
runs while another call has an iterator to the entry of the process (`Calls.Undisturbed`).
-/

set_option autoImplicit false

namespace KernelEventsTrace.Driver.SelfDefense

open KernelEventsTrace.RedBlack (RbTree)
open KernelEventsTrace.OrdMap (StrictWeak)
open KernelEventsTrace.Driver.Std (KString WChar Fault Heap Map Iterator Entry)

/-! ### Iterators to entries -/

/-- The iterator points to the entry of the process. -/
def PointsTo (t : RbTree (Entry Pid ProcessInfo)) (pid : Pid) (it : Iterator) : Prop :=
  ∃ e ∈ t.toList, e.key = pid ∧ e.addr = it

section
variable {m : Map Pid ProcessInfo} {t : RbTree (Entry Pid ProcessInfo)}

/-- Two PIDs are equivalent if they are the same. -/
theorem equiv_iff {a b : Pid} : OrdMap.Equiv pidLess a b ↔ a = b := by
  unfold OrdMap.Equiv pidLess
  simp only [decide_eq_false_iff_not, not_lt]
  exact ⟨fun h => Nat.le_antisymm h.2 h.1, fun h => ⟨Nat.le_of_eq h.symm, Nat.le_of_eq h⟩⟩

/-- `Find` returns `End()` or the iterator to the entry. -/
theorem find_pid (h : m.WF pidLess t) (pid : Pid) :
    ∃ it, m.find pidLess pid = .ok it ∧ (it = m.nil ∨ PointsTo t pid it) := by
  rcases Map.find_spec h pid with ⟨e, he, heq, hfind⟩ | ⟨-, hfind⟩
  · exact ⟨e.addr, hfind, Or.inr ⟨e, he, (equiv_iff.mp heq).symm, rfl⟩⟩
  · exact ⟨m.nil, hfind, Or.inl rfl⟩

/-- An iterator to an entry may be dereferenced. -/
theorem PointsTo.node {pid : Pid} {it : Iterator} (hit : PointsTo t pid it)
    (h : m.WF pidLess t) : ∃ n, m.node it = .ok n := by
  obtain ⟨e, he, -, rfl⟩ := hit
  obtain ⟨-, n, hn, -, -⟩ := h.rep.get_of_mem he
  exact ⟨n, hn⟩

/-- `Find`, and then an access to the entry unless it is `End()`. -/
theorem find_node (h : m.WF pidLess t) (pid : Pid) :
    ∃ it, m.find pidLess pid = .ok it ∧ (it ≠ m.endIt → ∃ n, m.node it = .ok n) := by
  obtain ⟨it, hfind, hit⟩ := find_pid h pid
  refine ⟨it, hfind, fun hne => ?_⟩
  rcases hit with rfl | hit
  · exact absurd rfl hne
  · exact hit.node h

/-- A later map: it is well-formed, and the iterators to all entries stay valid, except to that
of the process that is erased. -/
structure Later (m : Map Pid ProcessInfo) (t : RbTree (Entry Pid ProcessInfo))
    (erased : Option Pid) (m' : Map Pid ProcessInfo)
    (t' : RbTree (Entry Pid ProcessInfo)) : Prop where
  wf : m'.WF pidLess t'
  nil : m'.nil = m.nil
  keep : ∀ pid it, erased ≠ some pid → PointsTo t pid it → PointsTo t' pid it

/-- Nothing was done. -/
theorem Later.refl (h : m.WF pidLess t) : Later m t none m t := ⟨h, rfl, fun _ _ _ hit => hit⟩

/-- `Insert` moves no entry. -/
theorem insert_later (h : m.WF pidLess t) (pid : Pid) (info : ProcessInfo) :
    ∃ it isNew m' t', m.insert pidLess pid info = .ok (it, isNew, m') ∧ Later m t none m' t' := by
  rcases Map.insert_spec h pid info with ⟨e, -, -, m', hm', hwf, hev⟩ | ⟨-, m', t', hm', hins⟩
  · exact ⟨_, _, m', t, hm', hwf, hev.nil, fun _ _ _ hit => hit⟩
  · refine ⟨_, _, m', t', hm', hins.wf, hins.evolves.nil, ?_⟩
    rintro q it - ⟨e, he, hkey, haddr⟩
    obtain ⟨pre, post, hl, hl'⟩ := hins.splits
    refine ⟨e, ?_, hkey, haddr⟩
    rw [hl] at he
    rw [hl']
    simp only [List.mem_append, List.mem_cons] at he ⊢
    tauto

/-- `Erase` moves no other entry. -/
theorem erase_later (h : m.WF pidLess t) (pid : Pid) :
    ∃ n m' t', m.erase pidLess pid = .ok (n, m') ∧ Later m t (some pid) m' t' := by
  rcases Map.erase_spec h pid with ⟨pre, e, post, hl, heq, m', t', hm', hwf, hev, hl'⟩ | ⟨-, hm'⟩
  · refine ⟨1, m', t', hm', hwf, hev.nil, ?_⟩
    rintro q it hq ⟨x, hx, hkey, haddr⟩
    refine ⟨x, ?_, hkey, haddr⟩
    rw [hl] at hx
    rw [hl']
    simp only [List.mem_append, List.mem_cons] at hx ⊢
    rcases hx with hx | rfl | hx
    · exact Or.inl hx
    · -- The entry that is erased is the one of the process.
      have hpid := equiv_iff.mp heq
      exact absurd (congrArg some (hpid.trans hkey)) hq
    · exact Or.inr hx
  · exact ⟨0, m, t, hm', h, rfl, fun _ _ _ hit => hit⟩

end

/-! ### The sections -/

namespace Shared

variable {g : Shared} {t : RbTree (Entry Pid ProcessInfo)}

/-- What a step does to the static variables, without a fault. -/
def LaterThan (g : Shared) (t : RbTree (Entry Pid ProcessInfo)) (erased : Option Pid)
    (g' : Shared) : Prop :=
  ∃ t', Later g.processMap t erased g'.processMap t'

/-- `Insert` succeeds and takes no entry away. -/
theorem insert_spec (h : g.processMap.WF pidLess t) (pid : Pid) (info : ProcessInfo) :
    ∃ g', g.insert pid info = .ok g' ∧ g.LaterThan t none g' := by
  obtain ⟨it, isNew, m', t', hm', hlater⟩ := insert_later h pid info
  refine ⟨{ g with processMap := m' }, ?_, t', hlater⟩
  unfold insert
  rw [hm']
  rfl

/-- `GetProcessImageName` succeeds and changes nothing. -/
theorem getProcessImageName_spec (h : g.processMap.WF pidLess t) (query : Pid → ImageQuery)
    (pid : Pid) : ∃ path, g.getProcessImageName query pid = .ok path := by
  obtain ⟨it, hfind, hnode⟩ := find_node h pid
  unfold getProcessImageName
  rw [hfind]
  by_cases hit : it ≠ g.processMap.endIt
  · obtain ⟨n, hn⟩ := hnode hit
    refine ⟨n.val.processPath.copy, ?_⟩
    simp only [bind, Except.bind, if_pos hit, hn, pure, Except.pure]
  · refine ⟨(query pid).imageName, ?_⟩
    simp only [bind, Except.bind, if_neg hit, pure, Except.pure]

/-- `IsProtectedProcess` succeeds and takes no entry away. -/
theorem isProtectedProcess_spec (h : g.processMap.WF pidLess t) (query : Pid → ImageQuery)
    (pid : Pid) :
    ∃ isProtected g', g.isProtectedProcess query pid = .ok (isProtected, g') ∧
      g.LaterThan t none g' := by
  obtain ⟨it, hfind, hnode⟩ := find_node h pid
  unfold isProtectedProcess
  rw [hfind]
  by_cases hit : it ≠ g.processMap.endIt
  · obtain ⟨n, hn⟩ := hnode hit
    simp only [bind, Except.bind, if_pos hit, hn, pure, Except.pure]
    split
    · exact ⟨_, g, rfl, t, Later.refl h⟩
    · exact ⟨_, g, rfl, t, Later.refl h⟩
  · obtain ⟨path, hpath⟩ := getProcessImageName_spec h query pid
    obtain ⟨g', hg', hlater⟩ := insert_spec h pid
      ⟨pid, path.copy, isInProtectedDirectory g.protectedDirList path, 0⟩
    refine ⟨isInProtectedDirectory g.protectedDirList path, g', ?_, hlater⟩
    simp only [bind, Except.bind, if_neg hit, hpath, hg', pure, Except.pure]

/-- The look-up of the parent succeeds and changes nothing. -/
theorem parentProtected_spec (h : g.processMap.WF pidLess t) (currentPid : Pid) :
    ∃ isProtected, g.parentProtected currentPid = .ok isProtected := by
  obtain ⟨it, hfind, hnode⟩ := find_node h currentPid
  unfold parentProtected
  rw [hfind]
  by_cases hit : it ≠ g.processMap.endIt
  · obtain ⟨n, hn⟩ := hnode hit
    refine ⟨n.val.isProtected, ?_⟩
    simp only [bind, Except.bind, if_pos hit, hn, pure, Except.pure]
  · refine ⟨false, ?_⟩
    simp only [bind, Except.bind, if_neg hit, pure, Except.pure]

/-- A termination succeeds and takes away the entry of its process. -/
theorem terminate_spec (h : g.processMap.WF pidLess t) (pid : Pid) :
    ∃ g', g.terminate pid = .ok g' ∧ g.LaterThan t (some pid) g' := by
  obtain ⟨it, hfind, hnode⟩ := find_node h pid
  obtain ⟨n, m', t', hm', hlater⟩ := erase_later h pid
  refine ⟨{ g with processMap := m' }, ?_, t', hlater⟩
  unfold terminate
  rw [hfind]
  by_cases hit : it ≠ g.processMap.endIt
  · obtain ⟨e, he⟩ := hnode hit
    simp only [bind, Except.bind, if_pos hit, he, hm', pure, Except.pure]
  · simp only [bind, Except.bind, if_neg hit, hm', pure, Except.pure]

end Shared

/-! ### Points -/

namespace Point

/-- An iterator that a call holds outside of a section, with the process it was found for. -/
def holding : Point → Option (Pid × Iterator)
  | imageTest _ pid _ it => some (pid, it)
  | imageDeref pid _ it => some (pid, it)
  | handleTest op it => some (op.object.targetPid, it)
  | handleDeref op it => some (op.object.targetPid, it)
  | _ => none

/-- The iterators that the call holds are valid, and those that it is about to dereference are
not `End()`. -/
def Valid (nil : Iterator) (t : RbTree (Entry Pid ProcessInfo)) : Point → Prop
  | imageTest _ pid _ it => it = nil ∨ PointsTo t pid it
  | imageDeref pid _ it => PointsTo t pid it
  | handleTest op it => it = nil ∨ PointsTo t op.object.targetPid it
  | handleDeref op it => PointsTo t op.object.targetPid it
  | _ => True

/-- The process whose entry the step erases. -/
def erased : Point → Option Pid
  | termination pid => some pid
  | _ => none

variable {g : Shared} {t : RbTree (Entry Pid ProcessInfo)} {nil : Iterator}

/-- A call that holds no iterator. -/
theorem valid_of_holding {point : Point} (h : point.holding = none) : point.Valid nil t := by
  cases point <;> trivial

/-- The step of another call leaves the iterators valid. -/
theorem Valid.later {m m' : Map Pid ProcessInfo} {t' : RbTree (Entry Pid ProcessInfo)}
    {erased : Option Pid} {point : Point} (h : point.Valid m.nil t)
    (hlater : Later m t erased m' t')
    (hundisturbed : ∀ pid it, point.holding = some (pid, it) → erased = some pid → it = m.nil)
    (hne : ∀ pid, ¬ PointsTo t pid m.nil) : point.Valid m'.nil t' := by
  -- An iterator to the entry that is erased would be `End()`, which points to no entry.
  have hkeep : ∀ pid it, point.holding = some (pid, it) → PointsTo t pid it →
      PointsTo t' pid it := by
    intro pid it hhold hit
    refine hlater.keep pid it (fun herased => ?_) hit
    rw [hundisturbed pid it hhold herased] at hit
    exact hne pid hit
  cases point with
  | imageTest query pid caller it =>
    exact h.imp (fun heq => heq.trans hlater.nil.symm) (hkeep pid it rfl)
  | imageDeref pid caller it => exact hkeep pid it rfl h
  | handleTest op it => exact h.imp (fun heq => heq.trans hlater.nil.symm) (hkeep _ it rfl)
  | handleDeref op it => exact hkeep _ it rfl h
  | _ => trivial

/-- The next point after `GetProcessImageName` holds no iterator. -/
theorem holding_resume (g : Shared) (pid : Pid) (path : KString WChar) (caller : ImageCaller) :
    (caller.resume g pid path).holding = none := by
  cases caller with
  | creation currentPid startTime =>
    simp only [ImageCaller.resume]
    split <;> rfl
  | debugMessage answer => rfl

/-- A file callback that answers holds no iterator. -/
theorem holding_answerFile (query : Pid → ImageQuery) (currentPid : Pid)
    (result : PreopResult) : (answerFile query currentPid result).holding = none := by
  cases result <;> rfl

/-- The section of a file callback. -/
theorem guardFile_spec (h : g.processMap.WF pidLess t) (query : Pid → ImageQuery)
    (currentPid : Pid) (filePath : KString WChar) (result : PreopResult) :
    ∃ g' point', g.guardFile query currentPid filePath result = .ok (g', point') ∧
      g.LaterThan t none g' ∧ point'.holding = none := by
  obtain ⟨isProtected, g', hg', hlater⟩ := Shared.isProtectedProcess_spec h query currentPid
  unfold Shared.guardFile
  simp only [hg', bind, Except.bind, pure, Except.pure]
  split
  · exact ⟨g', _, rfl, hlater, rfl⟩
  · split
    · exact ⟨g', _, rfl, hlater, rfl⟩
    · exact ⟨g', _, rfl, hlater, holding_answerFile _ _ _⟩

/-- A step of a call with valid iterators makes no fault, and leaves the call with valid
iterators. Only a termination erases an entry. -/
theorem step_spec {point : Point} (h : g.processMap.WF pidLess t)
    (hvalid : point.Valid g.processMap.nil t) :
    ∃ g' point' t', point.step g = .ok (g', point') ∧
      Later g.processMap t point.erased g'.processMap t' ∧
      point'.Valid g'.processMap.nil t' := by
  have hsame := Later.refl h
  cases point with
  | imageFind query pid caller =>
    obtain ⟨it, hfind, hit⟩ := find_pid h pid
    refine ⟨g, .imageTest query pid caller it, t, ?_, hsame, hit⟩
    simp only [step, hfind, bind, Except.bind, pure, Except.pure]
  | imageTest query pid caller it =>
    -- Behind the test the iterator is one to an entry.
    by_cases hend : it ≠ g.processMap.endIt
    · exact ⟨g, .imageDeref pid caller it, t, if_pos hend, hsame, hvalid.resolve_left hend⟩
    · exact ⟨g, _, t, if_neg hend, hsame, valid_of_holding (holding_resume _ _ _ _)⟩
  | imageDeref pid caller it =>
    obtain ⟨n, hn⟩ := PointsTo.node hvalid h
    refine ⟨g, caller.resume g pid n.val.processPath.copy, t, ?_, hsame,
      valid_of_holding (holding_resume _ _ _ _)⟩
    simp only [step, hn, bind, Except.bind, pure, Except.pure]
  | creationParent currentPid pid startTime processPath =>
    obtain ⟨isProtected, hparent⟩ := Shared.parentProtected_spec h currentPid
    refine ⟨g, .creationInsert pid startTime processPath isProtected, t, ?_, hsame, trivial⟩
    simp only [step, hparent, bind, Except.bind, pure, Except.pure]
  | creationInsert pid startTime processPath isProtected =>
    obtain ⟨g', hg', t', hlater⟩ := Shared.insert_spec h pid
      ⟨pid, processPath.copy, isProtected, startTime⟩
    refine ⟨g', .done .notified, t', ?_, hlater, trivial⟩
    simp only [step, hg', bind, Except.bind, pure, Except.pure]
  | termination pid =>
    -- The only step that erases an entry.
    obtain ⟨g', hg', t', hlater⟩ := Shared.terminate_spec h pid
    refine ⟨g', .done .notified, t', ?_, hlater, trivial⟩
    simp only [step, hg', bind, Except.bind, pure, Except.pure]
  | lookup query pid =>
    obtain ⟨isProtected, g', hg', t', hlater⟩ := Shared.isProtectedProcess_spec h query pid
    refine ⟨g', .done .notified, t', ?_, hlater, trivial⟩
    simp only [step, hg', bind, Except.bind, pure, Except.pure]
  | createFile query data =>
    simp only [step]
    split
    · exact ⟨g, _, t, rfl, hsame, trivial⟩
    · obtain ⟨g', point', hg', ⟨t', hlater⟩, hnone⟩ := guardFile_spec h query data.currentPid
        data.filePath (checkCreate data.desiredAccess data.options)
      exact ⟨g', point', t', hg', hlater, valid_of_holding hnone⟩
  | setInformationFile query data =>
    simp only [step]
    split
    · exact ⟨g, _, t, rfl, hsame, trivial⟩
    · obtain ⟨g', point', hg', ⟨t', hlater⟩, hnone⟩ := guardFile_spec h query data.currentPid
        data.filePath (checkSetInformation g.protectedDirList data)
      exact ⟨g', point', t', hg', hlater, valid_of_holding hnone⟩
  | handleSource query op =>
    simp only [step]
    split
    · exact ⟨g, _, t, rfl, hsame, trivial⟩
    · split
      · exact ⟨g, _, t, rfl, hsame, trivial⟩
      · obtain ⟨isProtected, g', hg', t', hlater⟩ :=
          Shared.isProtectedProcess_spec h query op.sourcePid
        simp only [hg', bind, Except.bind, pure, Except.pure]
        split
        · exact ⟨g', _, t', rfl, hlater, trivial⟩
        · exact ⟨g', _, t', rfl, hlater, trivial⟩
  | handleTarget query op =>
    obtain ⟨isProtected, g', hg', t', hlater⟩ :=
      Shared.isProtectedProcess_spec h query op.object.targetPid
    simp only [step, hg', bind, Except.bind, pure, Except.pure]
    split
    · exact ⟨g', _, t', rfl, hlater, trivial⟩
    · exact ⟨g', _, t', rfl, hlater, trivial⟩
  | handleFind op =>
    obtain ⟨it, hfind, hit⟩ := find_pid h op.object.targetPid
    refine ⟨g, .handleTest op it, t, ?_, hsame, hit⟩
    simp only [step, hfind, bind, Except.bind, pure, Except.pure]
  | handleTest op it =>
    by_cases hend : it ≠ g.processMap.endIt
    · exact ⟨g, .handleDeref op it, t, if_pos hend, hsame, hvalid.resolve_left hend⟩
    · exact ⟨g, _, t, if_neg hend, hsame, trivial⟩
  | handleDeref op it =>
    obtain ⟨n, hn⟩ := PointsTo.node hvalid h
    simp only [step, hn, bind, Except.bind, pure, Except.pure]
    split
    · exact ⟨g, _, t, rfl, hsame, trivial⟩
    · exact ⟨g, _, t, rfl, hsame, trivial⟩
  | done answer => exact ⟨g, _, t, rfl, hsame, trivial⟩

end Point

/-! ### Schedules -/

namespace Calls

/-- No other call has an iterator to the entry of a process whose termination is next. -/
def Undisturbed (s : Calls) : Turn → Prop
  | .call _ => True
  | .step i => ∀ pid, s.points[i]? = some (.termination pid) →
      ∀ point ∈ s.points, ∀ it, point.holding = some (pid, it) → it = s.shared.processMap.nil

/-- The map is well-formed, and the iterators of all calls are valid. -/
structure Inv (s : Calls) (t : RbTree (Entry Pid ProcessInfo)) : Prop where
  wf : s.shared.processMap.WF pidLess t
  points : ∀ point ∈ s.points, point.Valid s.shared.processMap.nil t

/-- At the start there is no entry and no call. -/
theorem inv_registered (heap : Heap Pid ProcessInfo) (dirs : List (KString WChar))
    (enableProtectFile : Bool) : (registered heap dirs enableProtectFile).Inv .nil := by
  refine ⟨Map.construct_spec pidLess heap, fun point hpoint => ?_⟩
  cases hpoint

/-- A turn that is undisturbed makes no fault and keeps the invariant. -/
theorem Inv.turn {s : Calls} {t : RbTree (Entry Pid ProcessInfo)} (h : s.Inv t) {turn : Turn}
    (hturn : s.Undisturbed turn) : ∃ s' t', s.turn turn = .ok s' ∧ s'.Inv t' := by
  cases turn with
  | call notice =>
    refine ⟨_, t, rfl, h.wf, fun point hpoint => ?_⟩
    rcases List.mem_append.mp hpoint with hpoint | hpoint
    · exact h.points point hpoint
    · rw [List.mem_singleton.mp hpoint]
      cases notice <;> trivial
  | step i =>
    cases hi : s.points[i]? with
    | none => exact ⟨s, t, by simp only [Calls.turn, hi], h⟩
    | some point =>
      have hvalid := h.points point (List.mem_of_getElem? hi)
      obtain ⟨g', point', t', hstep, hlater, hvalid'⟩ := Point.step_spec h.wf hvalid
      refine ⟨⟨g', s.points.set i point'⟩, t', ?_, hlater.wf, fun q hq => ?_⟩
      · simp only [Calls.turn, hi, hstep, bind, Except.bind, pure, Except.pure]
      · rcases List.mem_or_eq_of_mem_set hq with hq | rfl
        · refine (h.points q hq).later hlater (fun pid it hhold herased => ?_) ?_
          · -- Only the termination of `pid` erases its entry.
            cases point <;> cases herased
            exact hturn pid hi q hq it hhold
          · -- The sentinel is no node.
            rintro pid ⟨e, he, -, haddr⟩
            exact h.wf.rep.nil_notMem (haddr ▸ List.mem_map_of_mem he)
        · exact hvalid'

/-- Every turn of the schedule is undisturbed in the state it happens in. -/
def AllUndisturbed (s : Calls) : List Turn → Prop
  | [] => True
  | turn :: turns => s.Undisturbed turn ∧ ∀ s', s.turn turn = .ok s' → s'.AllUndisturbed turns

/-- After any undisturbed schedule no iterator was used after its entry was erased. The induction
is on the schedule. -/
theorem Inv.run {turns : List Turn} {s : Calls} {t : RbTree (Entry Pid ProcessInfo)}
    (h : s.Inv t) (hturns : s.AllUndisturbed turns) :
    ∃ s' t', s.run turns = .ok s' ∧ s'.Inv t' := by
  induction turns generalizing s t with
  | nil => exact ⟨s, t, rfl, h⟩
  | cons turn turns ih =>
    obtain ⟨s1, t1, hs1, h1⟩ := h.turn hturns.1
    obtain ⟨s2, t2, hs2, h2⟩ := ih h1 (hturns.2 s1 hs1)
    refine ⟨s2, t2, ?_, h2⟩
    unfold Calls.run
    rw [List.foldlM_cons, hs1]
    exact hs2

/-- No schedule from `DrvRegister` on makes a fault, if each termination runs while no other call
has an iterator to the entry of its process. -/
theorem run_of_allUndisturbed (heap : Heap Pid ProcessInfo) (dirs : List (KString WChar))
    (enableProtectFile : Bool) (turns : List Turn)
    (hturns : (registered heap dirs enableProtectFile).AllUndisturbed turns) :
    ∃ s, (registered heap dirs enableProtectFile).run turns = .ok s := by
  obtain ⟨s, t, hs, -⟩ := (inv_registered heap dirs enableProtectFile).run hturns
  exact ⟨s, hs⟩

/-- The image of process 8 lies in the protected directory, and that of any other process does
not. -/
def eightInside (pid : Pid) : ImageQuery where
  found := true
  located := some (if pid = 8 then [69, 92, 97] else [67, 92, 98])
  resolved := true
  opened := true
  mismatch := true
  allocated := true
  queried := []

/-- Process 4 asks for a handle to process 8. -/
def fourToEight : ObRequest where
  kernelHandle := false
  previousMode := .userMode
  sourcePid := 4
  object := .process 8
  desiredAccess := PROCESS_TERMINATE
  currTime := 5000100#64

/-- `Undisturbed` for a given turn, computed. -/
def isUndisturbed (s : Calls) : Turn → Bool
  | .call _ => true
  | .step i =>
    match s.points[i]? with
    | some (.termination pid) => s.points.all fun point =>
        point.holding.all fun held => held.1 ≠ pid ∨ held.2 = s.shared.processMap.nil
    | _ => true

/-- `AllUndisturbed` for a given schedule, computed. -/
def areUndisturbed (s : Calls) : List Turn → Bool
  | [] => true
  | turn :: turns =>
    s.isUndisturbed turn &&
      match s.turn turn with
      | .ok s' => s'.areUndisturbed turns
      | .error _ => true

/-- The test of one turn. -/
theorem undisturbed_of_is {s : Calls} {turn : Turn} (h : s.isUndisturbed turn = true) :
    s.Undisturbed turn := by
  cases turn with
  | call notice => trivial
  | step i =>
    intro pid hi point hpoint it hhold
    simp only [isUndisturbed, hi, List.all_eq_true] at h
    have hheld := h point hpoint
    rw [hhold] at hheld
    simpa using hheld

/-- The test of all turns. -/
theorem allUndisturbed_of_are {s : Calls} {turns : List Turn} (h : s.areUndisturbed turns = true) :
    s.AllUndisturbed turns := by
  induction turns generalizing s with
  | nil => trivial
  | cons turn turns ih =>
    obtain ⟨hturn, hrest⟩ := Bool.and_eq_true_iff.mp h
    refine ⟨undisturbed_of_is hturn, fun s' hs' => ih ?_⟩
    rw [hs'] at hrest
    exact hrest

/-- `PreObCallback` has the iterator to the entry of process 8 when the termination of process 4
runs. -/
theorem run_of_allUndisturbed_find :
    ∃ s, (registered ⟨[]⟩ [.of [69, 92]] true).run
      [.call (.createHandle eightInside fourToEight), .step 0, .step 0, .step 0,
        .call (.termination 4), .step 1, .step 0, .step 0] = .ok s :=
  run_of_allUndisturbed ⟨[]⟩ [.of [69, 92]] true _ (allUndisturbed_of_are rfl)

/-- `PreObCallback` finds the entry of process 8 and is about to read its start time. Then the
termination of process 8 erases the entry, and the read goes to a deleted node. -/
theorem run_terminated_before_deref :
    (registered ⟨[]⟩ [.of [69, 92]] true).run
      [.call (.createHandle eightInside fourToEight), .step 0, .step 0, .step 0, .step 0,
        .call (.termination 8), .step 1, .step 0] = .error .deref := rfl

end Calls

end KernelEventsTrace.Driver.SelfDefense
