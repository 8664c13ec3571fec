import Mathlib.Data.List.Induction
import KernelEventsTrace.EtwService.Manager.ProcessManager
import KernelEventsTrace.Lib.Memo

/-!
# `KernelEventsTrace.Proofs.Manager.ProcessTable`: the keys of the process map

`AddProcess`, `UpdateImageFileName` and `GetImageFileName` make an entry with the PID under which
it is stored (`Keyed`). `GetProcessInfo` makes one with the PID 0, for a PID without an entry.
`UpdateImageFileName` finds this entry and leaves its PID as it is. So the PID stays unknown to
those who ask for it (`PageFaultEventFilter`), although it was updated.

`tableSound_iff`: in a run, the entries are right and the queries change no later answer, if and
only if `GetProcessInfo` is called for PIDs with an entry only.
-/

set_option autoImplicit false

namespace KernelEventsTrace.EtwService.Manager

open Memo

variable (files : NtFiles) (locale : Locale)

/-! ### Specification -/

/-- The PID that a call is about. -/
def ProcessCall.pid : ProcessCall → UInt64
  | .addProcess pid _ _ => pid
  | .removeProcess pid => pid
  | .isChild _ pid => pid
  | .updateImageFileName pid _ => pid
  | .getImageFileName _ pid => pid
  | .updateProcessCreationTime pid _ => pid
  | .getProcessInfo pid => pid

/-- A call that only asks. -/
def ProcessCall.IsQuery : ProcessCall → Prop
  | .isChild _ _ => True
  | .getProcessInfo _ => True
  | _ => False

/-- The call adds the PID, or gives it a name. -/
def adds (s : State) : ProcessCall → Bool
  | .addProcess _ _ _ => true
  | .updateImageFileName _ _ => true
  | .getImageFileName owners pid => (getImageFileName files locale owners s pid).1 ≠ []
  | _ => false

/-- The call removes the PID. -/
def removes : ProcessCall → Bool
  | .removeProcess _ => true
  | _ => false

/-- The state after one more call, and whether the PID is added then. -/
def addedStep (pid : UInt64) (r : State × Bool) (call : ProcessCall) : State × Bool :=
  (stepProcess files locale r.1 call,
    if call.pid ≠ pid then r.2
    else if adds files locale r.1 call then true
    else if removes call then false
    else r.2)

/-- The PID was added or updated since its last removal. -/
def added (calls : List ProcessCall) (pid : UInt64) : Bool :=
  (calls.foldl (addedStep files locale pid) (⟨fun _ => none, fun _ => none⟩, false)).2

/-- Two states give the same answers about processes. -/
def SameProcessAnswers (s s' : State) : Prop :=
  ∀ pid, pid ≠ 0 →
    (∀ ppid, ppid ≠ 0 → isChild s.processMap ppid pid = isChild s'.processMap ppid pid) ∧
      ((getProcessInfo s.processMap pid).1.pid = 0 ↔ (getProcessInfo s'.processMap pid).1.pid = 0)

/-- At every moment of the run, an entry has the PID of its key, the test for a process tells
whether it was added, and the answers are the same as without any one of the earlier queries. -/
structure TableSound (calls : List ProcessCall) : Prop where
  keyed : ∀ pre, pre <+: calls → ∀ pid info,
    (runProcess files locale pre).processMap pid = some info → info.pid = pid
  exists_iff : ∀ pre, pre <+: calls → ∀ pid, pid ≠ 0 →
    ((getProcessInfo (runProcess files locale pre).processMap pid).1.pid = 0 ↔
      added files locale pre pid = false)
  queries : ∀ pre query post, pre ++ query :: post <+: calls → query.IsQuery →
    SameProcessAnswers (runProcess files locale (pre ++ query :: post))
      (runProcess files locale (pre ++ post))

/-- `GetProcessInfo` is only called for a PID with an entry. -/
def AsksPresent (calls : List ProcessCall) : Prop :=
  ∀ pre pid, pre ++ [.getProcessInfo pid] <+: calls →
    (runProcess files locale pre).processMap pid ≠ none

/-! ### One call -/

/-- What a call does to the entry of its PID: it puts an entry with this PID, takes it out, or
leaves the map as it is. -/
inductive Effect (m : ProcessMap) (pid : UInt64) : Bool → Bool → ProcessMap → Prop where
  | put {adds : Bool} (info : ProcessInfo) (hpid : info.pid = pid)
      (hnew : adds = true ∨ m pid ≠ none) :
      Effect m pid adds false (Function.update m pid (some info))
  | erase : Effect m pid false true (Function.update m pid none)
  | keep {adds : Bool} (hold : adds = true → m pid ≠ none) : Effect m pid adds false m

/-- The entries have the PIDs of their keys. -/
def Keyed : ProcessMap → Prop := Within fun pid info => info.pid = pid

variable {files locale}

/-- `UpdateImageFileName` makes an entry if there is none. -/
theorem updateImageFileName_eq (m : ProcessMap) (pid : UInt64) (image : WString) :
    updateImageFileName m pid image = Function.update m pid
      (some { (m pid).getD { pid := pid } with imageFileName := image }) := by
  unfold updateImageFileName
  cases m pid <;> rfl

/-- An entry, or a new one, has the PID. -/
theorem Keyed.getD {m : ProcessMap} (h : Keyed m) (pid : UInt64) :
    ((m pid).getD { pid := pid }).pid = pid := by
  cases hm : m pid with
  | none => rfl
  | some info => exact h pid info hm

/-- `GetImageFileName` answers with the name in the map, with a name that it puts there, or with
nothing. -/
theorem getImageFileName_effect {s : State} (h : Keyed s.processMap) (owners : Owners)
    (pid : UInt64) :
    Effect s.processMap pid ((getImageFileName files locale owners s pid).1 ≠ []) false
      (getImageFileName files locale owners s pid).2.processMap := by
  have hlook : Effect s.processMap pid
      ((lookUpImageFileName files locale owners s pid).1 ≠ []) false
      (lookUpImageFileName files locale owners s pid).2.processMap := by
    unfold lookUpImageFileName
    simp only
    split
    · next hlen =>
      -- A name was found, and is put into the map.
      show Effect _ _ _ _ (updateImageFileName _ _ _)
      rw [updateImageFileName_eq]
      exact .put _ (h.getD pid) (.inl (decide_eq_true (List.length_pos_iff.mp hlen)))
    · next hlen =>
      exact .keep fun hne => absurd (List.length_pos_iff.mpr (of_decide_eq_true hne)) hlen
  unfold getImageFileName
  cases hm : s.processMap pid with
  | none => exact hlook
  | some info =>
    by_cases hname : info.imageFileName.length > 0
    · -- The answer is not empty, but the entry was there already.
      simp only [if_pos hname]
      exact .keep fun _ => by simp [hm]
    · simp only [if_neg hname]
      exact hlook

/-- What a call does to the table: it can add an entry for its own PID, or remove it. -/
theorem stepProcess_effect (files : NtFiles) (locale : Locale) {s : State}
    (h : Keyed s.processMap) {call : ProcessCall}
    (hasks : ∀ pid, call = .getProcessInfo pid → s.processMap pid ≠ none) :
    Effect s.processMap call.pid (adds files locale s call) (removes call)
      (stepProcess files locale s call).processMap := by
  cases call with
  | addProcess pid ppidReal ppidAdopted => exact .put _ rfl (.inl rfl)
  | removeProcess pid => exact .erase
  | isChild ppid pid => exact .keep nofun
  | updateImageFileName pid image =>
    show Effect _ _ _ _ (updateImageFileName _ _ _)
    rw [updateImageFileName_eq]
    exact .put _ (h.getD pid) (.inl rfl)
  | getImageFileName owners pid => exact getImageFileName_effect h owners pid
  | updateProcessCreationTime pid time =>
    -- The time of an unknown process is dropped.
    show Effect _ _ _ _ (updateProcessCreationTime _ _ _)
    unfold updateProcessCreationTime
    cases hm : s.processMap pid with
    | none => exact .keep nofun
    | some info => exact .put _ (h pid info hm) (.inr (by simp [ProcessCall.pid, hm]))
  | getProcessInfo pid =>
    show Effect _ _ _ _ (getProcessInfo _ _).2
    unfold getProcessInfo
    cases hm : s.processMap pid with
    | none => exact absurd hm (hasks pid rfl)
    | some info => exact .keep nofun

section
variable {m m' : ProcessMap} {pid : UInt64} {adds removes : Bool}

/-- An entry has the PID that it is filed under. -/
theorem Effect.keyed (e : Effect m pid adds removes m') (h : Keyed m) : Keyed m' := by
  cases e with
  | put info hpid hnew => exact Within.insert h hpid
  | erase => exact Within.erase h
  | keep hold => exact h

/-- There is an entry for a PID afterwards if it was added, or was there and not removed. -/
theorem Effect.isSome (e : Effect m pid adds removes m') (p : UInt64) :
    (m' p).isSome = if pid ≠ p then (m p).isSome else if adds then true
      else if removes then false else (m p).isSome := by
  by_cases hp : pid = p
  · subst hp
    cases e with
    | put info hpid hnew =>
      cases adds with
      | true => simp
      | false => simpa [Option.isSome_iff_ne_none] using hnew
    | erase => simp
    | keep hold =>
      cases adds with
      | true => simpa [Option.isSome_iff_ne_none] using hold
      | false => simp
  · rw [if_pos hp]
    cases e with
    | put info hpid hnew => rw [Function.update_of_ne (Ne.symm hp)]
    | erase => rw [Function.update_of_ne (Ne.symm hp)]
    | keep hold => rfl

end

/-! ### Runs -/

/-- One more call. -/
theorem runProcess_snoc (calls : List ProcessCall) (call : ProcessCall) :
    runProcess files locale (calls ++ [call]) =
      stepProcess files locale (runProcess files locale calls) call := by
  unfold runProcess
  rw [List.foldl_append]
  rfl

/-- More calls. -/
theorem runProcess_append (calls later : List ProcessCall) :
    runProcess files locale (calls ++ later) =
      later.foldl (stepProcess files locale) (runProcess files locale calls) := by
  unfold runProcess
  rw [List.foldl_append]

/-- The first part of the fold is the run. -/
theorem foldl_addedStep_fst (pid : UInt64) (calls : List ProcessCall) :
    (calls.foldl (addedStep files locale pid) (⟨fun _ => none, fun _ => none⟩, false)).1 =
      runProcess files locale calls := by
  induction calls using List.reverseRecOn with
  | nil => rfl
  | append_singleton calls call ih =>
    rw [List.foldl_append, runProcess_snoc, ← ih]
    rfl

/-- Whether an entry was added and not removed since, after one more call. -/
theorem added_snoc (calls : List ProcessCall) (call : ProcessCall) (pid : UInt64) :
    added files locale (calls ++ [call]) pid =
      if call.pid ≠ pid then added files locale calls pid
      else if adds files locale (runProcess files locale calls) call then true
      else if removes call then false
      else added files locale calls pid := by
  unfold added
  rw [List.foldl_append, ← foldl_addedStep_fst pid calls]
  rfl

/-- The beginning of such calls asks for present entries, too. -/
theorem AsksPresent.of_prefix {pre calls : List ProcessCall} (h : AsksPresent files locale calls)
    (hpre : pre <+: calls) : AsksPresent files locale pre :=
  fun before pid hbefore => h before pid (hbefore.trans hpre)

/-- The map has the right PIDs, and an entry for every PID that was added. -/
theorem AsksPresent.invariant {calls : List ProcessCall} (h : AsksPresent files locale calls) :
    Keyed (runProcess files locale calls).processMap ∧
      ∀ pid, ((runProcess files locale calls).processMap pid).isSome =
        added files locale calls pid := by
  induction calls using List.reverseRecOn with
  | nil => exact ⟨within_empty, fun _ => rfl⟩
  | append_singleton calls call ih =>
    obtain ⟨hkeyed, hadded⟩ := ih (h.of_prefix (List.prefix_append _ _))
    have hasks : ∀ pid, call = .getProcessInfo pid →
        (runProcess files locale calls).processMap pid ≠ none :=
      fun pid hcall => h calls pid (hcall ▸ List.prefix_rfl)
    have heffect := stepProcess_effect files locale hkeyed hasks
    rw [runProcess_snoc]
    constructor
    · exact heffect.keyed hkeyed
    · intro pid
      rw [heffect.isSome pid, hadded pid, added_snoc]

/-- The test for a process tells whether there is an entry. -/
theorem getProcessInfo_pid_eq_zero_iff {m : ProcessMap} (h : Keyed m) {pid : UInt64}
    (hpid : pid ≠ 0) : (getProcessInfo m pid).1.pid = 0 ↔ (m pid).isSome = false := by
  unfold getProcessInfo
  cases hm : m pid with
  | none => simp
  | some info =>
    have hinfo : info.pid = pid := h pid info hm
    simp [hinfo, hpid]

/-- A query changes nothing, if it is for a PID with an entry. -/
theorem stepProcess_query {s : State} {query : ProcessCall} (hquery : query.IsQuery)
    (hasks : ∀ pid, query = .getProcessInfo pid → s.processMap pid ≠ none) :
    stepProcess files locale s query = s := by
  cases query with
  | isChild ppid pid => rfl
  | getProcessInfo pid =>
    obtain ⟨info, hinfo⟩ := Option.ne_none_iff_exists'.mp (hasks pid rfl)
    show { s with processMap := (getProcessInfo s.processMap pid).2 } = s
    unfold getProcessInfo
    rw [hinfo]
  | addProcess pid ppidReal ppidAdopted => exact hquery.elim
  | removeProcess pid => exact hquery.elim
  | updateImageFileName pid image => exact hquery.elim
  | getImageFileName owners pid => exact hquery.elim
  | updateProcessCreationTime pid time => exact hquery.elim

/-- An entry that a getter makes has the PID 0. -/
theorem asksPresent_of_tableSound {calls : List ProcessCall} (hpids : ∀ call ∈ calls, call.pid ≠ 0)
    (h : TableSound files locale calls) : AsksPresent files locale calls := by
  intro pre pid hpre hnone
  -- Right after the first such call the entry is wrong.
  have hzero : (runProcess files locale (pre ++ [.getProcessInfo pid])).processMap pid =
      some {} := by
    rw [runProcess_snoc]
    show (getProcessInfo _ pid).2 pid = _
    unfold getProcessInfo
    rw [hnone]
    exact Function.update_self ..
  have hmem : ProcessCall.getProcessInfo pid ∈ calls := hpre.subset (by simp)
  exact hpids _ hmem (h.keyed _ hpre pid _ hzero).symm

/-- The process map is right in the whole run if and only if no getter is called for a PID without
an entry. -/
theorem tableSound_iff (files : NtFiles) (locale : Locale) {calls : List ProcessCall}
    (hpids : ∀ call ∈ calls, call.pid ≠ 0) :
    TableSound files locale calls ↔ AsksPresent files locale calls := by
  constructor
  · exact asksPresent_of_tableSound hpids
  · intro h
    constructor
    · intro pre hpre
      exact (h.of_prefix hpre).invariant.1
    · intro pre hpre pid hpid
      obtain ⟨hkeyed, hadded⟩ := (h.of_prefix hpre).invariant
      rw [getProcessInfo_pid_eq_zero_iff hkeyed hpid, hadded pid]
    · intro pre query post hpre hquery
      -- Without the query the run is in the same state, so it stays so behind it.
      have hsame : runProcess files locale (pre ++ query :: post) =
          runProcess files locale (pre ++ post) := by
        have hasks : ∀ pid, query = .getProcessInfo pid →
            (runProcess files locale pre).processMap pid ≠ none := by
          rintro pid rfl
          exact h pre pid ((by simp : pre ++ [_] <+: pre ++ _ :: post).trans hpre)
        rw [runProcess_append, runProcess_append, List.foldl_cons, stepProcess_query hquery hasks]
      rw [hsame]
      exact fun pid _ => ⟨fun _ _ => rfl, Iff.rfl⟩

/-- A system without files. -/
def noFiles : NtFiles where
  finalPathName _ := none

/-- A process is started, and then asked for. -/
theorem tableSound_started :
    TableSound noFiles .asciiOnly [.addProcess 7 4 4, .getProcessInfo 7] := by
  refine (tableSound_iff noFiles .asciiOnly (by decide)).mpr fun pre pid hpre => ?_
  cases pre with
  | nil => simp at hpre
  | cons first pre =>
    cases pre with
    | nil =>
      obtain ⟨rfl, rfl⟩ : first = .addProcess 7 4 4 ∧ pid = 7 := by simpa using hpre
      decide
    | cons second pre => simp at hpre

/-- After `PageFaultEventFilter` has asked for an unknown PID, an image name is put into an entry
with the PID 0. Without the question, the PID of the entry is right. -/
theorem not_tableSound_ghost :
    (getProcessInfo (runProcess noFiles .asciiOnly
        [.getProcessInfo 7, .updateImageFileName 7 (wide "a")]).processMap 7).1.pid = 0 ∧
      (getProcessInfo (runProcess noFiles .asciiOnly
        [.updateImageFileName 7 (wide "a")]).processMap 7).1.pid = 7 ∧
      added noFiles .asciiOnly [.getProcessInfo 7, .updateImageFileName 7 (wide "a")] 7 = true ∧
      ¬ TableSound noFiles .asciiOnly [.getProcessInfo 7, .updateImageFileName 7 (wide "a")] := by
  have hghost : (getProcessInfo (runProcess noFiles .asciiOnly
      [.getProcessInfo 7, .updateImageFileName 7 (wide "a")]).processMap 7).1.pid = 0 := by decide
  have hadded : added noFiles .asciiOnly
      [.getProcessInfo 7, .updateImageFileName 7 (wide "a")] 7 = true := by decide
  refine ⟨hghost, by decide, hadded, fun h => ?_⟩
  have hfalse := (h.exists_iff _ List.prefix_rfl 7 (by decide)).mp hghost
  rw [hadded] at hfalse
  cases hfalse

end KernelEventsTrace.EtwService.Manager
