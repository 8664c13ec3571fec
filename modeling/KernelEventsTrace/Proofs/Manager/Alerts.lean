import KernelEventsTrace.EtwService.Manager.EvaluateProcess
import KernelEventsTrace.Proofs.Manager.Selection
import KernelEventsTrace.Proofs.Manager.Tally
import Mathlib.Algebra.Order.BigOperators.Group.List
import Mathlib.Tactic.Tauto

/-!
# `KernelEventsTrace.Proofs.Manager.Alerts`: which processes are called ransomware

`Justified` is what is known of a process that a message box is shown for. It has at least ten
files to its credit, in two directories or more. At least ten of the files that were scanned under
its name still exist, they were changed, each of them is there once, and together they have at most
50 MB. TrID knows the extension of at most four fifths of them.

`evaluateProcess_alerts`: every message box is justified, and there is one for every process with
enough files that count and too few that are recognized. `run_alerts` is about a run of the
service: every event is evaluated once, in the order in which they came, and a message box is
justified by the events since the evaluation before.

No counter overflows. A file has at least a byte, so the budget bounds their number, too.
-/

set_option autoImplicit false

namespace KernelEventsTrace.EtwService.Manager

open KernelEventsTrace.FirstOccurrence

/-! ### Specification -/

/-- The files that were scanned under the name of a process and still exist. -/
def examined (fs : FileSystem) (s : SecondPass) (pid : UInt64) : List FileInfo :=
  (s.entries pid).filter fun e => fs.fileExist e.currentPath

/-- How many of them TrID recognizes. -/
def recognizedFiles (fs : FileSystem) (verdicts : TridMap) (s : SecondPass) (pid : UInt64) : Nat :=
  (examined fs s pid).countP fun e => verdict fs verdicts e = some true

/-- How many of them have a verdict or are text files. -/
def countedFiles (fs : FileSystem) (locale : Locale) (verdicts : TridMap) (s : SecondPass)
    (pid : UInt64) : Nat :=
  (s.entries pid).countP fun e => IsCounted fs locale verdicts e

/-- What is known of a process with a message box. -/
structure Justified (fs : FileSystem) (events : List FileIoInfo) (s : SecondPass)
    (verdicts : TridMap) (pid : UInt64) : Prop where
  credited : 10 ≤ (creditedFiles fs events pid).card
  directories : 2 ≤ ((creditedFiles fs events pid).image fs.parentPath).card
  enough : 10 ≤ (examined fs s pid).length
  nodup : ((examined fs s pid).map FileInfo.currentPath).Nodup
  changed : ∀ e ∈ examined fs s pid, ∃ p, e.currentPath ∈ creditedFiles fs events p
  budget : listedSize fs (examined fs s pid) ≤ FILE_MAX_TOTAL_SIZE_SCAN.toNat
  recognized : 5 * recognizedFiles fs verdicts s pid ≤ 4 * (examined fs s pid).length

/-- The message boxes of an evaluation of some events. -/
structure AlertsRight (ev : Evaluator) (events : List FileIoInfo) (alerts : List Alert) :
    Prop where
  /-- No process has two of them. -/
  nodup : (alerts.map Alert.pid).Nodup
  right : ∃ s verdicts, secondPass ev.fs ev.tools events = some s ∧
    tridMap ev.locale ev.isPrintableFile ev.exec ev.fs.hash s.paths = some verdicts ∧
    (∀ a ∈ alerts, Justified ev.fs events s verdicts a.pid) ∧
    ∀ pid, 10 ≤ countedFiles ev.fs ev.locale verdicts s pid →
      5 * recognizedFiles ev.fs verdicts s pid ≤
        4 * countedFiles ev.fs ev.locale verdicts s pid →
      pid ∈ alerts.map Alert.pid

/-! ### The queue -/

/-- The loop of `EvaluateProcess` takes the events in order, and leaves none. -/
theorem takeAll_eq (queue : FileIoQueue) (fileIoList : List FileIoInfo) :
    FileIoQueue.takeAll fileIoList queue = (fileIoList ++ queue, []) := by
  induction queue generalizing fileIoList with
  | nil =>
    unfold FileIoQueue.takeAll
    simp
  | cons io queue ih =>
    unfold FileIoQueue.takeAll
    rw [if_pos (show (io :: queue).length > 0 from Nat.zero_lt_succ _)]
    show FileIoQueue.takeAll (fileIoList ++ [io]) queue = _
    rw [ih, List.append_assoc]
    rfl

/-! ### The last loop -/

/-- The threshold, when nothing overflows. -/
theorem belowThreshold_iff {part total : Nat} (hpart : part ≤ total) (htotal : total < 2 ^ 32) :
    belowThreshold (UInt64.ofNat part) (UInt64.ofNat total) = true ↔ 5 * part ≤ 4 * total := by
  have hlt : total < 2 ^ 64 := by omega
  have hmul : (UInt64.ofNat total * THRESHOLD_PERCENTAGE).toNat = total * 80 := by
    rw [UInt64.toNat_mul, UInt64.toNat_ofNat_of_lt' hlt]
    exact Nat.mod_eq_of_lt (show total * 80 < 2 ^ 64 by omega)
  have hdiv : (UInt64.ofNat total * THRESHOLD_PERCENTAGE / 100).toNat = total * 80 / 100 := by
    rw [UInt64.toNat_div, hmul]
    rfl
  unfold belowThreshold
  rw [decide_eq_true_iff, UInt64.le_iff_toNat_le, hdiv,
    UInt64.toNat_ofNat_of_lt' (show part < 2 ^ 64 by omega)]
  omega

/-- The decision without the rounding of the percentage. -/
theorem isRansomware_iff {stats : Nat × Nat} (hle : stats.1 ≤ stats.2) (hlt : stats.2 < 2 ^ 32) :
    isRansomware stats = true ↔ 10 ≤ stats.2 ∧ 5 * stats.1 ≤ 4 * stats.2 := by
  have hmin : MIN_FILE_COUNT.toNat = 10 := rfl
  unfold isRansomware
  rw [decide_eq_true_iff, belowThreshold_iff hle hlt, ge_iff_le, UInt64.le_iff_toNat_le, hmin,
    UInt64.toNat_ofNat_of_lt' (show stats.2 < 2 ^ 64 by omega)]

section
variable (ev : Evaluator)

/-- The induction is on the entries. A message box makes no difference for those after it. -/
theorem foldl_reportStep (entries : List (UInt64 × (Nat × Nat))) (s : List Alert × State) :
    ((entries.foldl ev.reportStep s).1.map Alert.pid) =
      s.1.map Alert.pid ++ (entries.filter fun entry => isRansomware entry.2).map Prod.fst := by
  induction entries generalizing s with
  | nil => simp
  | cons entry entries ih =>
    rw [List.foldl_cons, ih]
    unfold Evaluator.reportStep
    by_cases h : isRansomware entry.2 = true
    · simp [h]
    · simp [h]

/-- An entry is gone through once for each listed PID. -/
theorem mem_entries_iff {results : UInt64 → Option (Nat × Nat)} {fileList : List FileInfo}
    {pid : UInt64} {stats : Nat × Nat} : (pid, stats) ∈ ev.entries results fileList ↔
      pid ∈ fileList.map FileInfo.pid ∧ results pid = some stats := by
  unfold Evaluator.entries
  rw [List.mem_filterMap]
  constructor
  · rintro ⟨p, hmem, hp⟩
    rw [(ev.order_perm _).mem_iff, List.mem_filter, List.mem_dedup] at hmem
    obtain ⟨st, hst, heq⟩ := Option.map_eq_some_iff.mp hp
    cases heq
    exact ⟨hmem.1, hst⟩
  · rintro ⟨hmem, hstats⟩
    refine ⟨pid, ?_, by rw [hstats]; rfl⟩
    rw [(ev.order_perm _).mem_iff, List.mem_filter, List.mem_dedup, hstats]
    exact ⟨hmem, rfl⟩

/-- A process has one entry. -/
theorem nodup_entries (results : UInt64 → Option (Nat × Nat)) (fileList : List FileInfo) :
    ((ev.entries results fileList).map Prod.fst).Nodup := by
  have hkeys : (ev.order ((fileList.map FileInfo.pid).dedup.filter fun pid =>
      (results pid).isSome)).Nodup :=
    (ev.order_perm _).nodup_iff.mpr ((List.nodup_dedup _).filter _)
  have hsub : ((ev.entries results fileList).map Prod.fst).Sublist
      (ev.order ((fileList.map FileInfo.pid).dedup.filter fun pid => (results pid).isSome)) := by
    unfold Evaluator.entries
    generalize ev.order _ = pids
    induction pids with
    | nil => exact List.Sublist.slnil
    | cons pid pids ih =>
      cases hpid : results pid with
      | none =>
        rw [List.filterMap_cons_none (by rw [hpid]; rfl)]
        exact ih.cons pid
      | some stats =>
        rw [List.filterMap_cons_some (by rw [hpid]; rfl)]
        exact ih.cons_cons pid
  exact hkeys.sublist hsub

/-- The processes with a message box. -/
theorem mem_report_iff {results : UInt64 → Option (Nat × Nat)} {fileList : List FileInfo}
    {processes : State} {pid : UInt64} :
    pid ∈ (ev.report results fileList processes).1.map Alert.pid ↔
      pid ∈ fileList.map FileInfo.pid ∧
        ∃ stats, results pid = some stats ∧ isRansomware stats = true := by
  unfold Evaluator.report
  rw [foldl_reportStep, List.map_nil, List.nil_append, List.mem_map]
  constructor
  · rintro ⟨⟨p, stats⟩, hmem, rfl⟩
    obtain ⟨hentry, hstats⟩ := List.mem_filter.mp hmem
    obtain ⟨hpid, hresult⟩ := (mem_entries_iff ev).mp hentry
    exact ⟨hpid, stats, hresult, hstats⟩
  · rintro ⟨hpid, stats, hresult, hstats⟩
    exact ⟨(pid, stats), List.mem_filter.mpr ⟨(mem_entries_iff ev).mpr ⟨hpid, hresult⟩, hstats⟩,
      rfl⟩

/-- A process has one message box at most. -/
theorem nodup_report (results : UInt64 → Option (Nat × Nat)) (fileList : List FileInfo)
    (processes : State) : ((ev.report results fileList processes).1.map Alert.pid).Nodup := by
  unfold Evaluator.report
  rw [foldl_reportStep, List.map_nil, List.nil_append]
  exact (nodup_entries ev results fileList).sublist (List.filter_sublist.map _)

end

/-! ### The counters of a process -/

/-- The files that are recognized are those with the verdict `true`. No file is counted that does
not exist. -/
theorem tally_bounds (fs : FileSystem) (locale : Locale) (isPrintableFile : WString → Bool)
    (verdicts : TridMap) (fileList : List FileInfo) (pid : UInt64) :
    (tally fs locale isPrintableFile verdicts fileList pid).1 =
        (fileList.countP fun e => e.pid = pid ∧ fs.fileExist e.currentPath = true ∧
          verdict fs verdicts e = some true) ∧
      (tally fs locale isPrintableFile verdicts fileList pid).2 ≤
        (fileList.countP fun e => e.pid = pid ∧ fs.fileExist e.currentPath = true) ∧
      (tally fs locale isPrintableFile verdicts fileList pid).1 ≤
        (tally fs locale isPrintableFile verdicts fileList pid).2 := by
  induction fileList using List.reverseRecOn with
  | nil => exact ⟨rfl, Nat.le_refl 0, Nat.le_refl 0⟩
  | append_singleton fileList e ih =>
    obtain ⟨hfst, hsnd, hle⟩ := ih
    rw [List.countP_append, List.countP_append, List.countP_singleton, List.countP_singleton]
    by_cases hpid : e.pid = pid
    · by_cases hcounted : IsCounted fs locale verdicts e ∨ RepeatsPath fs locale verdicts fileList e
      · have hexist : fs.fileExist e.currentPath = true := by
          rcases hcounted with h | h
          · exact h.1
          · exact h.1
        rw [tally_snoc_counted isPrintableFile hpid hcounted]
        dsimp only
        cases hverdict : verdict fs verdicts e with
        | none =>
          simp only [hpid, hexist, reduceCtorEq, and_false, and_true, decide_true, decide_false,
            Option.getD_none, Bool.toNat_false, if_true, Bool.false_eq_true, if_false]
          omega
        | some b =>
          cases b with
          | false =>
            simp only [hpid, hexist, Option.some.injEq, and_false, and_true, decide_true,
              decide_false, Option.getD_some, Bool.toNat_false, if_true, Bool.false_eq_true,
              if_false]
            omega
          | true =>
            simp only [hpid, hexist, and_true, decide_true, Option.getD_some, Bool.toNat_true,
              if_true]
            omega
      · -- What is not counted has no verdict, or does not exist.
        have hno : ¬ (fs.fileExist e.currentPath = true ∧ verdict fs verdicts e = some true) := by
          rintro ⟨hexist, hverdict⟩
          exact hcounted (.inl ⟨hexist, .inl (by rw [hverdict]; exact Option.some_ne_none true)⟩)
        rw [tally_snoc_skipped isPrintableFile fun _ => hcounted]
        simp only [hpid, hno, and_false, decide_false, Bool.false_eq_true, if_false]
        omega
    · rw [tally_snoc_skipped isPrintableFile fun h => absurd h hpid]
      simp only [hpid, false_and, decide_false, Bool.false_eq_true, if_false]
      omega

/-! ### The processes of the listed files -/

section
variable {fs : FileSystem} {tools : ScanTools} {events : List FileIoInfo}
  {whiteListPid : UInt64 → Bool} {s s' : SecondPass}

/-- A round lists at most the file of its event, under the process of the event. -/
theorem secondPassStep_fileList {io : FileIoInfo}
    (hstep : secondPassStep fs tools whiteListPid s io = some s') :
    s'.fileList = s.fileList ∨ ∃ tmp, s'.fileList = s.fileList ++ [⟨io.filePath, tmp, io.pid⟩] := by
  unfold secondPassStep at hstep
  dsimp only at hstep
  split at hstep
  · cases hstep
    exact .inl rfl
  · split at hstep
    · cases hstep
      exact .inl rfl
    · split at hstep
      · cases hstep
        exact .inl rfl
      · split at hstep
        · cases hstep
          exact .inl rfl
        · obtain ⟨tmp, -, rfl⟩ := Option.map_eq_some_iff.mp hstep
          unfold SecondPass.push
          split
          · exact .inl rfl
          · exact .inr ⟨tmp, rfl⟩

/-- The induction is on the events that are left. -/
theorem foldlM_fileList {rest : List FileIoInfo} (hrest : ∀ io ∈ rest, io ∈ events)
    (h : ∀ e ∈ s.fileList, ∃ io ∈ events, io.pid = e.pid)
    (hrun : rest.foldlM (secondPassStep fs tools whiteListPid) s = some s') :
    ∀ e ∈ s'.fileList, ∃ io ∈ events, io.pid = e.pid := by
  induction rest generalizing s with
  | nil =>
    cases hrun
    exact h
  | cons io rest ih =>
    rw [List.foldlM_cons] at hrun
    obtain ⟨next, hnext, hrun⟩ := Option.bind_eq_some_iff.mp hrun
    obtain ⟨hio, hrest⟩ := List.forall_mem_cons.mp hrest
    refine ih hrest ?_ hrun
    intro e he
    rcases secondPassStep_fileList hnext with hlist | ⟨tmp, hlist⟩
    · rw [hlist] at he
      exact h e he
    · rw [hlist, List.mem_append, List.mem_singleton] at he
      rcases he with he | rfl
      · exact h e he
      · exact ⟨io, hio, rfl⟩

end

/-! ### An evaluation -/

section
variable {fs : FileSystem} {events : List FileIoInfo} {S : Set WString} {pid : UInt64}

/-- A process with events that is not on the white list has enough files to its credit. -/
theorem credited_of_not_whiteListed (hS : Set.InjOn fs.hash S)
    (hpaths : ∀ io ∈ events, io.filePath ∈ S) (hknown : ∃ io ∈ events, io.pid = pid)
    (hpassed : whiteListed fs events pid = false) :
    10 ≤ (creditedFiles fs events pid).card ∧
      2 ≤ ((creditedFiles fs events pid).image fs.parentPath).card := by
  have hinv := passInv_firstPass hS events hpaths
  obtain ⟨c, hc⟩ := Option.isSome_iff_exists.mp ((hinv.known pid).mpr hknown)
  have hcounts := hinv.counts pid
  rw [hc, Option.getD_some] at hcounts
  have hpasses : c.passes = true := by
    unfold whiteListed at hpassed
    rw [hc] at hpassed
    simpa using hpassed
  obtain ⟨hfiles, -, hdirs⟩ := of_decide_eq_true hpasses
  rw [hcounts] at hfiles hdirs
  constructor
  · have hmin : (10 : Nat) ≤ (UInt64.ofNat (creditedFiles fs events pid).card).toNat :=
      UInt64.le_iff_toNat_le.mp hfiles
    rw [UInt64.toNat_ofNat'] at hmin
    exact hmin.trans (Nat.mod_le _ _)
  · exact hdirs.trans Finset.card_image_le

/-- The files of a process that exist, by `List.countP`. -/
theorem countP_examined (s : SecondPass) (p : FileInfo → Prop) [DecidablePred p] :
    (examined fs s pid).countP (fun e => p e) =
      s.fileList.countP fun e => e.pid = pid ∧ fs.fileExist e.currentPath = true ∧ p e := by
  unfold examined SecondPass.entries
  rw [List.countP_filter, List.countP_filter]
  refine List.countP_congr fun e _ => ?_
  simp only [decide_eq_true_eq, Bool.and_eq_true]
  tauto

/-- How many files of a process are examined. -/
theorem length_examined (s : SecondPass) : (examined fs s pid).length =
    s.fileList.countP fun e => e.pid = pid ∧ fs.fileExist e.currentPath = true := by
  unfold examined SecondPass.entries
  rw [List.filter_filter, ← List.countP_eq_length_filter]
  refine List.countP_congr fun e _ => ?_
  simp only [decide_eq_true_eq, Bool.and_eq_true]
  tauto

/-- The count of the model of the third pass. -/
theorem countedFiles_eq (locale : Locale) (isPrintableFile : WString → Bool) (verdicts : TridMap)
    (s : SecondPass) : countedFiles fs locale verdicts s pid =
      (expectedTally fs locale isPrintableFile verdicts s.fileList pid).2 := by
  unfold countedFiles SecondPass.entries expectedTally
  rw [List.countP_filter]
  refine List.countP_congr fun e _ => ?_
  simp only [decide_eq_true_eq, Bool.and_eq_true]
  tauto

/-- The examined files are some of those that were listed. -/
theorem listedSize_examined_le (s : SecondPass) :
    listedSize fs (examined fs s pid) ≤ listedSize fs (s.entries pid) :=
  (List.filter_sublist.map _).sum_le_sum fun _ _ => Nat.zero_le _

/-- The counters of a process after the third pass. -/
theorem alerted_iff {first : FirstPass} {whiteListPid : UInt64 → Bool} {s : SecondPass}
    (hinv : Selecting fs events first whiteListPid s) (locale : Locale)
    (isPrintableFile : WString → Bool) (verdicts : TridMap) :
    isRansomware (tally fs locale isPrintableFile verdicts s.fileList pid) = true ↔
      10 ≤ (tally fs locale isPrintableFile verdicts s.fileList pid).2 ∧
        5 * recognizedFiles fs verdicts s pid ≤
          4 * (tally fs locale isPrintableFile verdicts s.fileList pid).2 := by
  obtain ⟨hfst, hsnd, hle⟩ := tally_bounds fs locale isPrintableFile verdicts s.fileList pid
  have hmax : FILE_MAX_TOTAL_SIZE_SCAN.toNat = 52428800 := rfl
  have haccount := hinv.account pid
  -- The number of the files is within the budget.
  have hfew := haccount.few
  have hbudget := haccount.charged.trans haccount.budget
  have hlength : (examined fs s pid).length ≤ (s.entries pid).length := List.length_filter_le _ _
  rw [← length_examined] at hsnd
  have hrecognized : recognizedFiles fs verdicts s pid =
      (tally fs locale isPrintableFile verdicts s.fileList pid).1 := by
    rw [hfst]
    exact countP_examined s _
  rw [isRansomware_iff hle (by omega), hrecognized]

end

section
variable {ev : Evaluator} {events : List FileIoInfo}

/-- The message boxes that are shown at the end of an evaluation are right. -/
theorem alertsRight_report (hS : Set.InjOn ev.fs.hash {path | ∃ io ∈ events, io.filePath = path})
    (hbytes : ∀ io ∈ events, (ev.fs.getFileSize io.filePath).toNat < 2 ^ 62) {s : SecondPass}
    (hs : secondPass ev.fs ev.tools events = some s) {verdicts : TridMap}
    (hverdicts : tridMap ev.locale ev.isPrintableFile ev.exec ev.fs.hash s.paths = some verdicts)
    (processes : State) :
    AlertsRight ev events (ev.report (thirdPass ev.fs ev.locale ev.isPrintableFile verdicts
      s.fileList).procCheckResults s.fileList processes).1 := by
  have hpaths : ∀ io ∈ events, io.filePath ∈ {path | ∃ io ∈ events, io.filePath = path} :=
    fun io hio => ⟨io, hio, rfl⟩
  have hinv := Selecting.foldlM (counted_firstPass hS events hpaths) hS hpaths hbytes
    (fun _ h => h) (selecting_gate _ _) hs
  have hevents : ∀ e ∈ s.fileList, ∃ io ∈ events, io.pid = e.pid :=
    foldlM_fileList (fun _ h => h) (fun _ he => absurd he List.not_mem_nil) hs
  refine ⟨nodup_report _ _ _ _, s, verdicts, hs, hverdicts, ?_, ?_⟩
  · intro a ha
    obtain ⟨hmem, stats, hstats, hransom⟩ :=
      (mem_report_iff ev).mp (List.mem_map_of_mem ha)
    obtain ⟨e, he, hpid⟩ := List.mem_map.mp hmem
    have htally : tally ev.fs ev.locale ev.isPrintableFile verdicts s.fileList a.pid = stats := by
      unfold tally
      rw [hstats]
      rfl
    rw [← htally] at hransom
    obtain ⟨henough, hrecognized⟩ := (alerted_iff hinv _ _ _).mp hransom
    obtain ⟨-, hsnd, -⟩ :=
      tally_bounds ev.fs ev.locale ev.isPrintableFile verdicts s.fileList a.pid
    rw [← length_examined] at hsnd
    obtain ⟨hcredited, hdirs⟩ := credited_of_not_whiteListed hS hpaths
      (hpid ▸ hevents e he) (hpid ▸ hinv.passed e he)
    have hsub : (examined ev.fs s a.pid).Sublist s.fileList :=
      List.filter_sublist.trans List.filter_sublist
    constructor
    · exact hcredited
    · exact hdirs
    · exact henough.trans hsnd
    · exact hinv.nodup.sublist (hsub.map _)
    · exact fun e he => hinv.counted e (hsub.subset he)
    · exact (listedSize_examined_le s).trans
        ((hinv.account a.pid).charged.trans (hinv.account a.pid).budget)
    · omega
  · intro pid henough hrecognized
    have hle : countedFiles ev.fs ev.locale verdicts s pid ≤
        (tally ev.fs ev.locale ev.isPrintableFile verdicts s.fileList pid).2 := by
      rw [countedFiles_eq ev.locale ev.isPrintableFile]
      exact (total_iff s.fileList).1
    have hransom := (alerted_iff hinv ev.locale ev.isPrintableFile verdicts).mpr
      ⟨henough.trans hle, by omega⟩
    refine (mem_report_iff ev).mpr ⟨?_, ?_⟩
    · -- A process with listed files is among the keys.
      have hpos : 0 < (s.entries pid).length := by
        have hcount : countedFiles ev.fs ev.locale verdicts s pid ≤ (s.entries pid).length :=
          List.countP_le_length
        omega
      obtain ⟨e, he⟩ := List.exists_mem_of_length_pos hpos
      obtain ⟨hlisted, hpid⟩ := List.mem_filter.mp he
      exact List.mem_map.mpr ⟨e, hlisted, of_decide_eq_true hpid⟩
    · cases hstats : (thirdPass ev.fs ev.locale ev.isPrintableFile verdicts
        s.fileList).procCheckResults pid with
      | some stats =>
        unfold tally at hransom
        rw [hstats] at hransom
        exact ⟨stats, rfl, hransom⟩
      | none =>
        unfold tally at hle
        rw [hstats] at hle
        exact absurd (henough.trans hle) (by decide)

/-- An evaluation in terms of its passes. -/
theorem evaluateProcess_eq (service : Service) : ev.evaluateProcess service =
    (secondPass ev.fs ev.tools service.queue).bind fun s =>
      (tridMap ev.locale ev.isPrintableFile ev.exec ev.fs.hash s.paths).map fun verdicts =>
        let result := ev.report (thirdPass ev.fs ev.locale ev.isPrintableFile verdicts
          s.fileList).procCheckResults s.fileList service.processes
        (result.1, ⟨[], result.2⟩) := by
  unfold Evaluator.evaluateProcess
  rw [takeAll_eq, List.nil_append]
  dsimp only
  cases hs : secondPass ev.fs ev.tools service.queue with
  | none => rfl
  | some s =>
    dsimp only [Option.bind_some]
    cases tridMap ev.locale ev.isPrintableFile ev.exec ev.fs.hash s.paths with
    | none => rfl
    | some verdicts => rfl

/-- An evaluation takes the whole queue, and its message boxes are right. -/
theorem evaluateProcess_spec {service service' : Service} {alerts : List Alert}
    (hS : Set.InjOn ev.fs.hash {path | ∃ io ∈ service.queue, io.filePath = path})
    (hbytes : ∀ io ∈ service.queue, (ev.fs.getFileSize io.filePath).toNat < 2 ^ 62)
    (h : ev.evaluateProcess service = some (alerts, service')) :
    service'.queue = [] ∧ AlertsRight ev service.queue alerts := by
  rw [evaluateProcess_eq] at h
  obtain ⟨s, hs, hrest⟩ := Option.bind_eq_some_iff.mp h
  obtain ⟨verdicts, hverdicts, hresult⟩ := Option.map_eq_some_iff.mp hrest
  cases hresult
  exact ⟨rfl, alertsRight_report hS hbytes hs hverdicts _⟩

end

/-! ### Runs -/

/-- The event that a call puts into the queue. -/
def ServiceCall.pushed : ServiceCall → Option FileIoInfo
  | .pushRenameFileEventToQueue filePathNew pid => some ⟨RENAME_FLAG, filePathNew, pid⟩
  | .pushWriteFileEventToQueue filePath pid => some ⟨WRITE_FLAG, filePath, pid⟩
  | .process _ _ _ => none
  | .evaluateProcess _ => none

/-- The events that are put into the queue in a run. -/
def pushed (calls : List ServiceCall) : List FileIoInfo := calls.filterMap ServiceCall.pushed

/-- Different paths among the events have different hashes for an evaluation, and no file has 2^62
bytes or more. -/
structure Usual (events : List FileIoInfo) (ev : Evaluator) : Prop where
  hash : Set.InjOn ev.fs.hash {path | ∃ io ∈ events, io.filePath = path}
  bytes : ∀ io ∈ events, (ev.fs.getFileSize io.filePath).toNat < 2 ^ 62

/-- A part of the events is as usual as the whole. -/
theorem Usual.mono {events events' : List FileIoInfo} {ev : Evaluator} (h : Usual events ev)
    (hsub : events' ⊆ events) : Usual events' ev where
  hash := by
    refine h.hash.mono ?_
    rintro path ⟨io, hio, rfl⟩
    exact ⟨io, hsub hio, rfl⟩
  bytes := fun io hio => h.bytes io (hsub hio)

/-- The state after some events were put into the queue. -/
structure ServiceRun.Inv (r : ServiceRun) (events : List FileIoInfo) : Prop where
  once : r.evaluations.flatMap Evaluation.fileIoList ++ r.service.queue = events
  alerts : ∀ e ∈ r.evaluations, AlertsRight e.ev e.fileIoList e.alerts

/-- One call keeps the account of the events. -/
theorem ServiceRun.Inv.step {r r' : ServiceRun} {events : List FileIoInfo} (h : r.Inv events)
    {call : ServiceCall} (husual : ∀ ev, call = .evaluateProcess ev → Usual events ev)
    (hstep : r.step call = some r') : r'.Inv (events ++ call.pushed.toList) := by
  have honce := h.once
  cases call with
  | pushRenameFileEventToQueue filePathNew pid =>
    cases hstep
    refine ⟨?_, h.alerts⟩
    rw [← honce]
    exact (List.append_assoc ..).symm
  | pushWriteFileEventToQueue filePath pid =>
    cases hstep
    refine ⟨?_, h.alerts⟩
    rw [← honce]
    exact (List.append_assoc ..).symm
  | process files locale call =>
    cases hstep
    refine ⟨?_, h.alerts⟩
    rw [← honce]
    exact (List.append_nil _).symm
  | evaluateProcess ev =>
    obtain ⟨⟨alerts, service'⟩, hev, rfl⟩ := Option.map_eq_some_iff.mp hstep
    have hqueue : r.service.queue ⊆ events := by
      rw [← honce]
      exact List.subset_append_right _ _
    have hmono := (husual ev rfl).mono hqueue
    obtain ⟨hempty, hright⟩ := evaluateProcess_spec hmono.hash hmono.bytes hev
    have htaken : (FileIoQueue.takeAll [] r.service.queue).1 = r.service.queue := by
      rw [takeAll_eq, List.nil_append]
    constructor
    · show (r.evaluations ++ [_]).flatMap Evaluation.fileIoList ++ service'.queue =
        events ++ []
      rw [hempty, List.flatMap_append, List.flatMap_singleton, ← honce]
      dsimp only
      rw [htaken, List.append_nil]
    · intro e he
      rcases List.mem_append.mp he with he | he
      · exact h.alerts e he
      · rw [List.mem_singleton.mp he]
        dsimp only
        rw [htaken]
        exact hright

/-- The induction is on the calls, from the end. -/
theorem ServiceRun.inv_run {calls : List ServiceCall} {r : ServiceRun}
    (husual : ∀ ev, .evaluateProcess ev ∈ calls → Usual (pushed calls) ev)
    (hrun : ServiceRun.initial.run calls = some r) : r.Inv (pushed calls) := by
  induction calls using List.reverseRecOn generalizing r with
  | nil =>
    cases hrun
    exact ⟨rfl, fun e he => nomatch he⟩
  | append_singleton calls call ih =>
    unfold ServiceRun.run at hrun
    rw [List.foldlM_append] at hrun
    obtain ⟨before, hbefore, hlast⟩ := Option.bind_eq_some_iff.mp hrun
    have hstep : before.step call = some r := by
      rw [List.foldlM_cons] at hlast
      obtain ⟨next, hnext, hend⟩ := Option.bind_eq_some_iff.mp hlast
      cases hend
      exact hnext
    have hpushed : pushed (calls ++ [call]) = pushed calls ++ call.pushed.toList := by
      unfold pushed
      rw [List.filterMap_append]
      cases call <;> rfl
    have hsub : pushed calls ⊆ pushed (calls ++ [call]) := by
      rw [hpushed]
      exact List.subset_append_left _ _
    have hprev := ih (fun ev hev => (husual ev (List.mem_append_left _ hev)).mono hsub) hbefore
    rw [hpushed]
    refine hprev.step ?_ hstep
    rintro ev rfl
    exact (husual ev (by simp)).mono hsub

/-- In every run each event is evaluated once, in the order in which the events came, or is still in
the queue. The message boxes of an evaluation are right about the events that it took. -/
theorem run_alerts {calls : List ServiceCall} {r : ServiceRun}
    (husual : ∀ ev, .evaluateProcess ev ∈ calls → Usual (pushed calls) ev)
    (hrun : ServiceRun.initial.run calls = some r) :
    r.evaluations.flatMap Evaluation.fileIoList ++ r.service.queue = pushed calls ∧
      ∀ e ∈ r.evaluations, AlertsRight e.ev e.fileIoList e.alerts :=
  ⟨(ServiceRun.inv_run husual hrun).once, (ServiceRun.inv_run husual hrun).alerts⟩

/-- TrID prints nothing. No file can be opened. -/
def silentEvaluator : Evaluator where
  fs := flatFiles
  tools := asciiTools
  isPrintableFile _ := true
  exec _ _ := []
  files := ⟨fun _ => none⟩
  locale := .asciiOnly
  owners _ := none
  order pids := pids
  order_perm _ := List.Perm.refl _

/-- A process writes ten text files in two directories. -/
def tenTexts : List ServiceCall :=
  tenFiles.map fun f => .pushWriteFileEventToQueue (f ++ wide ".txt") 7

/-- TrID says nothing about them, so the process is called ransomware. -/
theorem run_alerts_tenTexts : ∃ r,
    ServiceRun.initial.run (tenTexts ++ [.evaluateProcess silentEvaluator]) = some r ∧
      (r.evaluations.map fun e => e.alerts.map Alert.pid) = [[7]] ∧
      r.evaluations.flatMap Evaluation.fileIoList ++ r.service.queue =
        pushed (tenTexts ++ [.evaluateProcess silentEvaluator]) ∧
      ∀ e ∈ r.evaluations, AlertsRight e.ev e.fileIoList e.alerts := by
  have hshown : ((ServiceRun.initial.run (tenTexts ++ [.evaluateProcess silentEvaluator])).map
      fun r => r.evaluations.map fun e => e.alerts.map Alert.pid) = some [[7]] := by
    decide +kernel
  obtain ⟨r, hrun, hpids⟩ := Option.map_eq_some_iff.mp hshown
  have husual : Usual (pushed (tenTexts ++ [.evaluateProcess silentEvaluator]))
      silentEvaluator := by
    constructor
    · rintro _ ⟨io, hio, rfl⟩ _ ⟨io', hio', rfl⟩
      revert io io'
      decide +kernel
    · decide +kernel
  refine ⟨r, hrun, hpids, run_alerts ?_ hrun⟩
  intro ev hev
  rcases List.mem_append.mp hev with hev | hev
  · obtain ⟨f, -, hf⟩ := List.mem_map.mp hev
    cases hf
  · cases List.mem_singleton.mp hev
    exact husual

end KernelEventsTrace.EtwService.Manager
