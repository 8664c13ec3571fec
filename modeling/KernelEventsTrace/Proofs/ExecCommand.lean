import Mathlib.Data.List.TakeWhile
import Mathlib.Tactic.Abel
import KernelEventsTrace.EtwService.ExecCommand

/-!
# `KernelEventsTrace.Proofs.ExecCommand`: a command leaves nothing open

`ExecCommand` opens a pipe, a process, tokens and an impersonation, and each call can fail. The
proofs follow the nesting of its blocks. `Ends p x out q` is what one block does: it starts with the
handles `p`, and ends with the outcome `out` and the handles `q`. A scope closes its own handle
around whatever its body does (`ends_scope`).

* `ends_execBody`: the three ways through the body. A command runs as the service itself, or as the
  user of the session, or not at all.
* `readAll_eq`, `cBytes_of_not_mem`: the output is that of the command, up to zeros.
* `execCommands_eq`: after any number of calls only the handles from before are open, and each call
  returns `outcome`. The only fault is `freeUserName` after a failed query.
-/

set_option autoImplicit false

namespace KernelEventsTrace.EtwService.Ulti

open Holding (acquire)

variable {p q : Multiset Handle} {h : Handle}

/-! ### Handles -/

/-- A handle is closed. -/
theorem ends_close (hp : p = h ::ₘ q) : Ends p (close h) (.ok ()) q := Ends.release _ hp

/-- A handle that is there if the call has succeeded. -/
def given (success : Bool) (h : Handle) : Multiset Handle := if success then {h} else 0

/-- A handle is got if the call succeeds. -/
theorem ends_acquireIf (success : Bool) (h : Handle) (p : Multiset Handle) :
    Ends p (acquireIf success h) (.ok ()) (given success h + p) := by
  cases success with
  | false => exact (Ends.pure p ()).of_eq rfl (zero_add p).symm
  | true => exact (Ends.acquire p h).of_eq rfl (Multiset.singleton_add h p).symm

/-- A handle is closed if it was got. -/
theorem ends_closeIf {success : Bool} (hp : p = given success h + q) :
    Ends p (closeIf success h) (.ok ()) q := by
  cases success with
  | false => exact (Ends.pure q ()).of_eq (hp.trans (zero_add q)) rfl
  | true => exact ends_close (hp.trans (Multiset.singleton_add h q))

/-! ### The functions that `ExecCommand` calls -/

/-- The token of the process is closed on every path. -/
theorem ends_isRunningAsSystem (a : TokenAnswers) (p : Multiset Handle) :
    Ends p (isRunningAsSystem a) (.ok a.isSystem) p := by
  obtain ⟨openProcessToken, malloc, getTokenInformation, allocateSid, equalSid⟩ := a
  cases openProcessToken with
  | false => exact Ends.pure p false
  | true =>
    refine Ends.bind (Ends.acquire _ _) (Ends.bind (ends_acquireIf _ _ _) ?_)
    by_cases hinfo : malloc = true ∧ getTokenInformation = true
    · obtain ⟨rfl, rfl⟩ := hinfo
      have hclose : {.tokenUser} + .token ::ₘ p = .token ::ₘ .tokenUser ::ₘ p := by
        rw [Multiset.singleton_add, Multiset.cons_swap]
      rw [if_pos ⟨rfl, rfl⟩]
      cases allocateSid with
      | true =>
        refine Ends.bind (Ends.acquire _ _) (Ends.bind (ends_close rfl) ?_)
        exact Ends.bind (ends_close hclose) (Ends.bind (ends_close rfl) (Ends.pure p _))
      | false =>
        exact Ends.bind (ends_close hclose) (Ends.bind (ends_close rfl) (Ends.pure p _))
    · have hsystem : (⟨true, malloc, getTokenInformation, allocateSid, equalSid⟩ :
          TokenAnswers).isSystem = false := by
        cases malloc <;> cases getTokenInformation <;> simp_all [TokenAnswers.isSystem]
      rw [if_neg hinfo, hsystem]
      refine Ends.bind (ends_close (Multiset.add_cons _ _ _)) ?_
      exact Ends.bind (ends_closeIf rfl) (Ends.pure p _)

/-- The buffer with the sessions is freed. -/
theorem ends_getCurrentSessionId (a : ExecAnswers) (p : Multiset Handle) :
    Ends p (getCurrentSessionId a.sessions) (.ok a.sessionId) p := by
  unfold ExecAnswers.sessionId
  cases a.sessions with
  | none => exact Ends.pure p 0
  | some infos =>
    exact Ends.bind (Ends.acquire _ _) (Ends.bind (ends_close rfl) (Ends.pure _ _))

/-- The handle of the process is closed, if it could be opened. -/
theorem ends_killProcess (openProcess : Bool) (p : Multiset Handle) :
    Ends p (killProcess openProcess) (.ok ()) p :=
  Ends.bind (ends_acquireIf _ _ _) (ends_closeIf rfl)

/-! ### `CreateProcessAsUserW` -/

/-- The handles of a process that was created. -/
def child (created : Bool) : Multiset Handle := given created .thread + given created .process

/-- A new process comes with the handles of its thread and of itself. -/
theorem ends_createIf (created : Bool) (p : Multiset Handle) :
    Ends p (createIf created) (.ok ()) (child created + p) :=
  (Ends.bind (ends_acquireIf _ _ _) (ends_acquireIf _ _ _)).of_eq rfl (add_assoc _ _ _).symm

/-- The name of the user is freed. If the query has failed, the pointer was never set. -/
theorem ends_freeUserName (a : ExecAnswers) (p : Multiset Handle) :
    Ends (given a.queryUserName .userName + p) (freeUserName a)
      (if a.queryUserName then .ok () else .error .uninitialized) p := by
  unfold freeUserName
  cases a.queryUserName with
  | false => exact Ends.throw _ _ _
  | true => exact ends_close (Multiset.singleton_add _ _)

/-- The impersonation ends, and the name of the user is freed. -/
theorem ends_asUser (a : ExecAnswers) (p : Multiset Handle) :
    Ends p (asUser a)
      (if a.queryUserName then .ok a.createProcessAsUser else .error .uninitialized)
      (child a.createProcessAsUser + p) := by
  have hfree := ends_freeUserName a (child a.createProcessAsUser + p)
  refine Ends.bind (ends_acquireIf _ _ _) (Ends.bind (ends_acquireIf _ _ _) ?_)
  refine Ends.bind (ends_createIf _ _) (Ends.bind (ends_closeIf (add_left_comm _ _ _)) ?_)
  rw [add_left_comm]
  cases hname : a.queryUserName with
  | false =>
    rw [hname] at hfree
    exact Ends.bind_error hfree _
  | true =>
    rw [hname] at hfree
    exact Ends.bind hfree (Ends.pure _ _)

/-- A scope with a handle from a call that can fail. -/
theorem ends_scope (success : Bool) {created : Bool} {x : ExecProgram Bool}
    {out : Except ExecFault Bool}
    (hx : ∀ p, Ends p x out (child created + p)) (h : Handle) (p : Multiset Handle) :
    Ends p (if success then do
        acquire h
        let created ← x
        close h
        return created
      else pure false) (if success then out else .ok false) (child (success && created) + p) := by
  cases success with
  | false => exact (Ends.pure p false).of_eq rfl (zero_add p).symm
  | true => exact Ends.bracket ((hx (h ::ₘ p)).of_eq rfl (Multiset.add_cons _ _ _))

/-- What the block for the service ends with. -/
def userOutcome (a : ExecAnswers) : Except ExecFault Bool :=
  if a.hasUserToken then
    if a.queryUserName then .ok a.createProcessAsUser else .error .uninitialized
  else .ok false

/-- The tokens are closed, from the inner one to the outer one. -/
theorem ends_withImpersonationToken {a : ExecAnswers} (hsession : a.sessionId ≠ 0)
    (hactive : a.connectState = some true) (p : Multiset Handle) :
    Ends p (withImpersonationToken a) (userOutcome a)
      (child (a.hasUserToken && a.createProcessAsUser) + p) := by
  have huser := ends_scope a.duplicateToken (ends_asUser a) .userToken
  have hlinked := ends_scope a.getTokenInformation huser .linkedToken
  have hscopes := ends_scope a.queryUserToken hlinked .impersonationToken p
  have htoken : a.hasUserToken =
      (a.queryUserToken && (a.getTokenInformation && a.duplicateToken)) := by
    simp [ExecAnswers.hasUserToken, hsession, hactive, Bool.and_assoc]
  have hcreated : (a.queryUserToken && (a.getTokenInformation && (a.duplicateToken &&
      a.createProcessAsUser))) = (a.hasUserToken && a.createProcessAsUser) := by
    rw [htoken, Bool.and_assoc, Bool.and_assoc]
  have houtcome : (if a.queryUserToken then if a.getTokenInformation then if a.duplicateToken then
      if a.queryUserName then .ok a.createProcessAsUser else .error .uninitialized
      else .ok false else .ok false else .ok false) = userOutcome a := by
    rw [userOutcome, htoken]
    cases a.queryUserToken <;> cases a.getTokenInformation <;> cases a.duplicateToken <;> rfl
  rw [houtcome, hcreated] at hscopes
  exact hscopes

/-- What is left of an attempt as the user are the handles of the new process. -/
theorem ends_createAsUser (a : ExecAnswers) (p : Multiset Handle) :
    Ends p (createAsUser a) (userOutcome a)
      (child (a.hasUserToken && a.createProcessAsUser) + p) := by
  have hnone : a.hasUserToken = false → Ends p (pure false) (userOutcome a)
      (child (a.hasUserToken && a.createProcessAsUser) + p) := by
    intro h
    rw [userOutcome, h]
    exact (Ends.pure p false).of_eq rfl (zero_add p).symm
  refine Ends.bind (ends_getCurrentSessionId a p) ?_
  by_cases hsession : a.sessionId = 0
  · rw [if_pos hsession]
    exact hnone (by simp [ExecAnswers.hasUserToken, hsession])
  · rw [if_neg hsession]
    cases hstate : a.connectState with
    | none => exact hnone (by simp [ExecAnswers.hasUserToken, hstate])
    | some active =>
      refine Ends.bind (Ends.acquire _ _) (Ends.bind (ends_close rfl) ?_)
      cases active with
      | false => exact hnone (by simp [ExecAnswers.hasUserToken, hstate])
      | true => exact ends_withImpersonationToken hsession hstate p

/-! ### `ExecCommand` -/

/-- The chunks are read one after the other, each up to its first zero. -/
theorem readAll_eq (reads : List (List UInt8)) : readAll reads = (reads.map cBytes).flatten := by
  have hfold : ∀ result, reads.foldl (fun result chunk => result ++ cBytes chunk) result =
      result ++ (reads.map cBytes).flatten := by
    induction reads with
    | nil => simp
    | cons chunk reads ih => simp [ih]
  exact hfold []

/-- The write end of the pipe is closed, and the output is read to its end. -/
theorem ends_readOutput (a : ExecAnswers) (created : Bool) (p : Multiset Handle) :
    Ends (.stdoutWrite ::ₘ p) (readOutput a created)
      (.ok (a.fromBytes (if created then (a.reads.map cBytes).flatten else []))) p := by
  have hread : readAll (if created then a.reads else []) =
      if created then (a.reads.map cBytes).flatten else [] := by
    rw [readAll_eq]
    cases created <;> rfl
  refine Ends.bind (ends_close rfl) ?_
  rw [hread]
  exact Ends.pure _ _

/-- The body, by what it ends with. -/
def bodyOutcome (a : ExecAnswers) : Except ExecFault ExecEnd :=
  if a.triesAsUser && !a.queryUserName then .error .uninitialized
  else if !a.createProcess && a.token.isSystem && !a.started then .ok ⟨some [], false, true⟩
  else .ok ⟨a.fromBytes a.output, a.started, false⟩

/-- What is held then, beside the reading end of the pipe. -/
def bodyRefs : Except ExecFault ExecEnd → Multiset Handle
  | .ok e => child e.created + given e.stdoutWrite .stdoutWrite
  | .error _ => 0

/-- A body that reads the output. -/
theorem ends_body_read {a : ExecAnswers} {created : Bool} (hstarted : a.started = created)
    (hbody : bodyOutcome a = .ok ⟨a.fromBytes a.output, a.started, false⟩) (p : Multiset Handle) :
    Ends (child created + .stdoutWrite ::ₘ p) (do
        let result ← readOutput a created
        return ⟨result, created, false⟩)
      (bodyOutcome a) (bodyRefs (bodyOutcome a) + p) := by
  rw [hbody, ExecAnswers.output, hstarted, Multiset.add_cons]
  refine Ends.bind (ends_readOutput a created _) ((Ends.pure _ _).of_eq rfl ?_)
  show child created + p = child created + 0 + p
  rw [add_zero]

/-- A service that could not create the process tries it as the user of the session. -/
theorem ends_execAsSystem {a : ExecAnswers} (hcreate : a.createProcess = false)
    (hsystem : a.token.isSystem = true) (p : Multiset Handle) :
    Ends (.stdoutWrite ::ₘ p) (execAsSystem a) (bodyOutcome a) (bodyRefs (bodyOutcome a) + p) := by
  have huser := ends_createAsUser a (.stdoutWrite ::ₘ p)
  have htries : a.triesAsUser = a.hasUserToken := by
    simp [ExecAnswers.triesAsUser, hcreate, hsystem]
  have hstarted : a.started = (a.hasUserToken && a.createProcessAsUser) := by
    simp [ExecAnswers.started, hcreate, htries]
  by_cases hfault : (a.hasUserToken && !a.queryUserName) = true
  · have hbody : bodyOutcome a = .error .uninitialized := by
      rw [bodyOutcome, htries, if_pos hfault]
    have hout : userOutcome a = .error .uninitialized := by
      simp_all [userOutcome]
    rw [hout] at huser
    rw [hbody]
    exact Ends.bind_error huser _
  · have hout : userOutcome a = .ok a.started := by
      rw [hstarted, userOutcome]
      cases htoken : a.hasUserToken <;> simp_all
    rw [hout, ← hstarted] at huser
    cases hs : a.started with
    | true =>
      have hbody : bodyOutcome a = .ok ⟨a.fromBytes a.output, a.started, false⟩ := by
        rw [bodyOutcome, htries, if_neg hfault, hs]
        simp
      rw [hs] at huser
      exact Ends.bind huser (ends_body_read hs hbody p)
    | false =>
      have hbody : bodyOutcome a = .ok ⟨some [], false, true⟩ := by
        rw [bodyOutcome, htries, if_neg hfault, hs]
        simp [hcreate, hsystem]
      have hrefs : child false + .stdoutWrite ::ₘ p = child false + {.stdoutWrite} + p := by
        rw [add_assoc, Multiset.singleton_add]
      rw [hs] at huser
      rw [hbody]
      exact Ends.bind huser ((Ends.pure _ _).of_eq rfl hrefs)

/-- The three ways through the body end with the handles of `bodyRefs`. -/
theorem ends_execBody (a : ExecAnswers) (p : Multiset Handle) :
    Ends (.stdoutWrite ::ₘ p) (execBody a) (bodyOutcome a) (bodyRefs (bodyOutcome a) + p) := by
  unfold execBody
  cases hcreate : a.createProcess with
  | true =>
    have hstarted : a.started = true := by simp [ExecAnswers.started, hcreate]
    have hbody : bodyOutcome a = .ok ⟨a.fromBytes a.output, a.started, false⟩ := by
      simp [bodyOutcome, ExecAnswers.triesAsUser, hcreate]
    exact Ends.bind (ends_createIf true _) (ends_body_read hstarted hbody p)
  | false =>
    refine Ends.bind (ends_isRunningAsSystem a.token _) ?_
    cases hsystem : a.token.isSystem with
    | false =>
      have hstarted : a.started = false := by
        simp [ExecAnswers.started, ExecAnswers.triesAsUser, hcreate, hsystem]
      have hbody : bodyOutcome a = .ok ⟨a.fromBytes a.output, a.started, false⟩ := by
        simp [bodyOutcome, ExecAnswers.triesAsUser, hsystem]
      exact (ends_body_read hstarted hbody p).of_eq (zero_add _).symm rfl
    | true => exact ends_execAsSystem hcreate hsystem p

/-- The blocks that are deferred to the end of the call. -/
theorem ends_deferred (a : ExecAnswers) (e : ExecEnd) :
    Ends (bodyRefs (.ok e) + {.stdoutRead}) (do
      closeIf e.created .process
      closeIf e.created .thread
      killProcess a.openProcess
      close .stdoutRead
      closeIf e.stdoutWrite .stdoutWrite
      return e.result) (.ok e.result) 0 := by
  have hprocess : bodyRefs (.ok e) + {.stdoutRead} = given e.created .process +
      (given e.created .thread + (given e.stdoutWrite .stdoutWrite + {.stdoutRead})) := by
    simp only [bodyRefs, child]
    abel
  have hread : given e.stdoutWrite .stdoutWrite + {.stdoutRead} =
      .stdoutRead ::ₘ given e.stdoutWrite .stdoutWrite := by
    rw [add_comm, Multiset.singleton_add]
  refine Ends.bind (ends_closeIf hprocess) (Ends.bind (ends_closeIf rfl) ?_)
  refine Ends.bind (ends_killProcess _ _) (Ends.bind (ends_close hread) ?_)
  exact Ends.bind (ends_closeIf (add_zero _).symm) (Ends.pure 0 _)

/-- With a pipe, the call is its body. -/
theorem outcome_of_createPipe {a : ExecAnswers} (hpipe : a.createPipe = true) :
    a.outcome = (bodyOutcome a).map ExecEnd.result := by
  have hfault : (a.createPipe ∧ a.triesAsUser ∧ ¬ a.queryUserName) ↔
      (a.triesAsUser && !a.queryUserName) = true := by simp [hpipe]
  have hearly : a.leavesEarly = (!a.createProcess && a.token.isSystem && !a.started) := by
    simp [ExecAnswers.leavesEarly, hpipe]
  rw [ExecAnswers.outcome, bodyOutcome, hearly, if_congr hfault rfl rfl, apply_ite (Except.map _),
    apply_ite (Except.map _)]
  rfl

/-- What a call returns. Nothing that it gets from the system is left. -/
theorem ends_execCommand (a : ExecAnswers) : Ends 0 (execCommand a) a.outcome 0 := by
  unfold execCommand
  cases hpipe : a.createPipe with
  | false =>
    have houtcome : a.outcome = .ok (some []) := by
      simp [ExecAnswers.outcome, ExecAnswers.leavesEarly, hpipe]
    rw [houtcome]
    exact Ends.pure 0 _
  | true =>
    have hbody := ends_execBody a {.stdoutRead}
    rw [outcome_of_createPipe hpipe]
    refine Ends.bind (Ends.acquire _ _) (Ends.bind (Ends.acquire _ _) ?_)
    cases hend : bodyOutcome a with
    | error fault =>
      rw [hend] at hbody
      exact Ends.bind_error hbody 0
    | ok e =>
      rw [hend] at hbody
      exact Ends.bind hbody (ends_deferred a e)

/-- A chunk without a zero is kept whole. -/
theorem cBytes_of_not_mem {chunk : List UInt8} (h : 0 ∉ chunk) : cBytes chunk = chunk := by
  refine List.takeWhile_eq_self_iff.mpr fun b hb => decide_eq_true fun hzero => ?_
  exact h (hzero ▸ hb)

/-- Every call of a run ends as it is meant to, and leaves nothing open: no pipe, no process, no
token, no buffer. The split of the output by `ReadFile` makes no difference where it has no
zeros. -/
theorem execCommands_eq (runs : List ExecAnswers) (held : Multiset Handle) :
    runs.mapM execCommand held = (runs.mapM ExecAnswers.outcome).map (fun texts => (texts, held)) ∧
      ∀ a ∈ runs, a.started = true → (∀ chunk ∈ a.reads, 0 ∉ chunk) →
        a.output = a.reads.flatten := by
  constructor
  · have hruns := Ends.mapM_zero ends_execCommand runs held
    rw [zero_add] at hruns
    exact hruns
  · intro a _ hstarted hzeros
    have hchunks : a.reads.map cBytes = a.reads :=
      (List.map_congr_left fun chunk hchunk => cBytes_of_not_mem (hzeros chunk hchunk)).trans
        (List.map_id _)
    rw [ExecAnswers.output, if_pos hstarted, hchunks]

end KernelEventsTrace.EtwService.Ulti
