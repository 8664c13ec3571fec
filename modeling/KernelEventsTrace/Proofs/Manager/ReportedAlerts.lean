import KernelEventsTrace.Proofs.Manager.Alerts
import KernelEventsTrace.Proofs.Manager.TridAlignment

/-!
# `KernelEventsTrace.Proofs.Manager.ReportedAlerts`: message boxes from the reports of TrID

When TrID reports all files that it is asked about, each file that is scanned has the verdict of its
own report. Then the outcome of an evaluation can be read off the reports: `alerts_reports`. No
file without a verdict is left, so nothing depends on the test of the text files.
-/

set_option autoImplicit false

namespace KernelEventsTrace.EtwService.Manager

/-! ### Specification -/

/-- A report about the file recognizes it. -/
def recognizedBy (ev : Evaluator) (reports : List (List Report)) (e : FileInfo) : Bool :=
  reports.flatten.any fun r =>
    r.name = e.tmpPath ∧ r.verdict ev.locale ev.isPrintableFile = true

/-- At least ten files of the process were scanned and still exist, and the reports recognize at
most four fifths of them. -/
def CalledRansomware (ev : Evaluator) (reports : List (List Report)) (s : SecondPass)
    (pid : UInt64) : Prop :=
  10 ≤ (examined ev.fs s pid).length ∧
    5 * (examined ev.fs s pid).countP (recognizedBy ev reports) ≤
      4 * (examined ev.fs s pid).length

/-! ### The verdicts -/

section
variable {ev : Evaluator} {reports : List (List Report)} {s : SecondPass} {verdicts : TridMap}

/-- A listed file has the verdict of its report. -/
theorem verdict_of_reports (hhash : Set.InjOn ev.fs.hash {path | path ∈ s.paths})
    (hnodup : s.paths.Nodup) (hreported : Reported ev.locale ev.exec s.paths reports)
    (hall : reports.flatten.map Report.name = s.paths)
    (hverdicts : tridMap ev.locale ev.isPrintableFile ev.exec ev.fs.hash s.paths = some verdicts)
    {e : FileInfo} (he : e.tmpPath ∈ s.paths) :
    verdict ev.fs verdicts e = some (recognizedBy ev reports e) := by
  obtain ⟨m, hm, hjoined⟩ := tridMap_spec ev.isPrintableFile hhash hreported
  obtain rfl : verdicts = m := Option.some.inj (hverdicts.symm.trans hm)
  have hfront : InFront s.paths reports := hall ▸ List.prefix_refl _
  obtain ⟨m', hm', haligned⟩ : Aligned ev.locale ev.isPrintableFile ev.exec ev.fs.hash s.paths
      reports := aligned_of_inFront hhash hreported hfront
  obtain rfl : verdicts = m' := Option.some.inj (hverdicts.symm.trans hm')
  obtain ⟨i, hi, hpath⟩ := List.mem_iff_getElem.mp he
  have hlength : (results ev.locale ev.isPrintableFile reports).length = s.paths.length := by
    rw [← hall]
    unfold results
    rw [List.length_map, List.length_map]
  -- There is an entry, because there is a result for each path.
  obtain ⟨b, hb⟩ := Option.isSome_iff_exists.mp
    (hjoined.position i e.tmpPath (hlength ▸ hi) (List.getElem?_eq_some_iff.mpr ⟨hi, hpath⟩))
  obtain ⟨r, hr, hname, rfl⟩ := haligned e.tmpPath he b hb
  have hunique : ∀ r' ∈ reports.flatten, r'.name = e.tmpPath → r' = r := by
    intro r' hr' hname'
    rw [← hall] at hnodup
    exact List.inj_on_of_nodup_map hnodup hr' hr (hname'.trans hname.symm)
  unfold verdict
  rw [hb, Option.some.injEq, Bool.eq_iff_iff]
  unfold recognizedBy
  rw [List.any_eq_true]
  constructor
  · exact fun h => ⟨r, hr, decide_eq_true ⟨hname, h⟩⟩
  · rintro ⟨r', hr', h⟩
    obtain ⟨hname', hverdict⟩ := of_decide_eq_true h
    rw [hunique r' hr' hname'] at hverdict
    exact hverdict

/-- When every listed file has a verdict, all of those that exist are counted. -/
theorem countedFiles_of_verdicts {fs : FileSystem} {locale : Locale} {pid : UInt64}
    (h : ∀ e ∈ s.fileList, verdict fs verdicts e ≠ none) :
    countedFiles fs locale verdicts s pid = (examined fs s pid).length := by
  unfold countedFiles examined
  rw [← List.countP_eq_length_filter]
  refine List.countP_congr fun e he => ?_
  have hlisted : e ∈ s.fileList := List.filter_sublist.subset he
  simp [IsCounted, h e hlisted]

end

/-! ### The second pass ends -/

section
variable {fs : FileSystem} {tools : ScanTools} {whiteListPid : UInt64 → Bool}

/-- A round throws no exception if the path of the event can be converted. -/
theorem isSome_secondPassStep (s : SecondPass) {io : FileIoInfo}
    (h : (tools.wstrToStr io.filePath).isSome) :
    (secondPassStep fs tools whiteListPid s io).isSome := by
  unfold secondPassStep tmpPath checkPrintablePath
  dsimp only
  split_ifs
  all_goals simp [h]

/-- The induction is on the events. -/
theorem isSome_foldlM_secondPassStep {events : List FileIoInfo}
    (h : ∀ io ∈ events, (tools.wstrToStr io.filePath).isSome) (s : SecondPass) :
    (events.foldlM (secondPassStep fs tools whiteListPid) s).isSome := by
  induction events generalizing s with
  | nil => rfl
  | cons io events ih =>
    obtain ⟨hio, hrest⟩ := List.forall_mem_cons.mp h
    obtain ⟨next, hnext⟩ := Option.isSome_iff_exists.mp
      (isSome_secondPassStep s hio)
    rw [List.foldlM_cons, hnext]
    exact ih hrest next

end

/-! ### The result -/

/-- TrID reports all files that the second pass has selected. Then the processes with a message box
are those whose files the reports do not recognize often enough. -/
theorem alerts_of_secondPass (ev : Evaluator) (service : Service) {s : SecondPass}
    {reports : List (List Report)} (husual : Usual service.queue ev)
    (hs : secondPass ev.fs ev.tools service.queue = some s)
    (hhash : Set.InjOn ev.fs.hash {path | path ∈ s.paths}) (hnodup : s.paths.Nodup)
    (hreported : Reported ev.locale ev.exec s.paths reports)
    (hall : 10 ≤ s.paths.length → reports.flatten.map Report.name = s.paths) :
    ∃ alerts service', ev.evaluateProcess service = some (alerts, service') ∧
      ∀ pid, pid ∈ alerts.map Alert.pid ↔ CalledRansomware ev reports s pid := by
  obtain ⟨verdicts, hverdicts, -⟩ := tridMap_spec ev.isPrintableFile hhash hreported
  have hinv := Selecting.foldlM (counted_firstPass husual.hash service.queue
    fun io hio => ⟨io, hio, rfl⟩) husual.hash (fun io hio => ⟨io, hio, rfl⟩) husual.bytes
    (fun _ h => h) (selecting_gate _ _) hs
  have hlength : ∀ pid, (examined ev.fs s pid).length ≤ s.paths.length := by
    intro pid
    rw [hinv.paths_eq, List.length_map]
    exact (List.filter_sublist.trans List.filter_sublist).length_le
  have hright := alertsRight_report husual.hash husual.bytes hs hverdicts service.processes
  obtain ⟨-, s', verdicts', hs', hverdicts', hjustified, hcomplete⟩ := hright
  obtain rfl : s = s' := Option.some.inj (hs.symm.trans hs')
  obtain rfl : verdicts = verdicts' := Option.some.inj (hverdicts.symm.trans hverdicts')
  have hev := @evaluateProcess_eq ev service
  rw [hs, Option.bind_some, hverdicts, Option.map_some] at hev
  refine ⟨_, _, hev, fun pid => ?_⟩
  by_cases hfew : 10 ≤ s.paths.length
  · have hverdict : ∀ e ∈ s.fileList,
        verdict ev.fs verdicts e = some (recognizedBy ev reports e) := by
      intro e he
      apply verdict_of_reports hhash hnodup hreported (hall hfew) hverdicts
      rw [hinv.paths_eq]
      exact List.mem_map_of_mem he
    have hrecognized : recognizedFiles ev.fs verdicts s pid =
        (examined ev.fs s pid).countP (recognizedBy ev reports) := by
      refine List.countP_congr fun e he => ?_
      rw [hverdict e ((List.filter_sublist.trans List.filter_sublist).subset he)]
      simp
    have hcounted : countedFiles ev.fs ev.locale verdicts s pid =
        (examined ev.fs s pid).length := by
      refine countedFiles_of_verdicts fun e he => ?_
      rw [hverdict e he]
      exact Option.some_ne_none _
    constructor
    · intro hmem
      obtain ⟨a, ha, rfl⟩ := List.mem_map.mp hmem
      have hj := hjustified a ha
      exact ⟨hj.enough, hrecognized ▸ hj.recognized⟩
    · rintro ⟨henough, hbelow⟩
      exact hcomplete pid (hcounted ▸ henough) (by rw [hcounted, hrecognized]; exact hbelow)
  · -- TrID does not run, and no process has ten files.
    constructor
    · intro hmem
      obtain ⟨a, ha, rfl⟩ := List.mem_map.mp hmem
      exact absurd ((hjustified a ha).enough.trans (hlength _)) hfew
    · rintro ⟨henough, -⟩
      exact absurd (henough.trans (hlength _)) hfew

/-- When every queued path can be converted, the second pass ends. When TrID then reports all files
that it is asked about, the evaluation ends, and the processes with a message box are those whose
files the reports do not recognize often enough. -/
theorem alerts_reports (ev : Evaluator) (service : Service) (husual : Usual service.queue ev)
    (hconverts : ∀ io ∈ service.queue, (ev.tools.wstrToStr io.filePath).isSome) :
    ∃ s, secondPass ev.fs ev.tools service.queue = some s ∧
      ∀ reports, Set.InjOn ev.fs.hash {path | path ∈ s.paths} → s.paths.Nodup →
        Reported ev.locale ev.exec s.paths reports →
        (10 ≤ s.paths.length → reports.flatten.map Report.name = s.paths) →
        ∃ alerts service', ev.evaluateProcess service = some (alerts, service') ∧
          ∀ pid, pid ∈ alerts.map Alert.pid ↔ CalledRansomware ev reports s pid := by
  obtain ⟨s, hs⟩ := Option.isSome_iff_exists.mp (isSome_foldlM_secondPassStep hconverts _)
  exact ⟨s, hs, fun reports hhash hnodup hreported hall =>
    alerts_of_secondPass ev service husual hs hhash hnodup hreported hall⟩

/-! ### Ten pictures of another type -/

/-- TrID takes the file for a picture of another type than its name says. -/
def otherReport (name : WString) : Report :=
  ⟨name, [wide "100.0% (.JPG) JPEG Bitmap (4000/1)"]⟩

/-- The output of TrID about all of the pictures. -/
def otherText : TridText where
  crlf := true
  closed := true
  header := pictureHeader
  items := tenPictures.map fun name => .report (otherReport name)
  body := tenPictures.flatMap fun name => (otherReport name).lines

/-- No file is printable, and paths need no copies. -/
def pictureEvaluator : Evaluator where
  fs := { flatFiles with hash := pictureHash }
  tools := asciiTools
  isPrintableFile _ := false
  exec _ _ := otherText.render
  files := ⟨fun _ => none⟩
  locale := .asciiOnly
  owners _ := none
  order pids := pids
  order_perm _ := List.Perm.refl _

/-- Process 7 has written the pictures. -/
def pictureService : Service :=
  ⟨tenPictures.map fun path => ⟨WRITE_FLAG, path, 7⟩, ⟨fun _ => none, fun _ => none⟩⟩

/-- The output of the example is one of TrID. -/
theorem otherText_wellFormed : otherText.WellFormed Locale.asciiOnly where
  header_length := rfl
  header_plain := by
    show ∀ l ∈ pictureHeader, _ ∧ _
    decide
  items := by
    have hname : ∀ name ∈ tenPictures, name ≠ [] ∧ Plain name := by
      unfold Plain
      decide
    have hbody : ∀ line ∈ [wide "100.0% (.JPG) JPEG Bitmap (4000/1)"],
        line ≠ [] ∧ Plain line ∧ NoFile Locale.asciiOnly line := by
      unfold Plain NoFile
      decide
    intro item hitem
    obtain ⟨name, hmem, rfl⟩ := List.mem_map.mp hitem
    obtain ⟨hne, hplain⟩ := hname name hmem
    exact ⟨hne, hplain, hbody⟩
  body := by
    have hlines : otherText.items.flatMap Item.lines = otherText.body := by
      unfold otherText
      rw [List.flatMap_map]
      rfl
    rw [hlines]
    exact SameEnd.refl _

/-- Ten pictures that TrID takes for something else, and a message box for their process. -/
theorem alerts_reports_pictures : ∃ alerts service',
    pictureEvaluator.evaluateProcess pictureService = some (alerts, service') ∧
      7 ∈ alerts.map Alert.pid := by
  -- No picture is copied, and all of them are selected.
  have hrun : ((secondPass pictureEvaluator.fs pictureEvaluator.tools pictureService.queue).map
      fun s => (s.paths, s.fileList)) =
        some (tenPictures, tenPictures.map fun path => ⟨path, path, 7⟩) := by
    decide +kernel
  obtain ⟨s, hs, hpair⟩ := Option.map_eq_some_iff.mp hrun
  obtain ⟨hpaths, hlist⟩ := Prod.mk.inj hpair
  have hbatches : batches tenPictures = [tenPictures] := by decide +kernel
  have hreports : reportsOf otherText.items = tenPictures.map otherReport := by decide
  have hnames : (tenPictures.map otherReport).map Report.name = tenPictures := by decide
  -- One command takes all of the files.
  have hreported : Reported Locale.asciiOnly pictureEvaluator.exec s.paths
      [tenPictures.map otherReport] := by
    unfold Reported
    rw [hpaths, hbatches]
    refine .cons ⟨.inr ⟨otherText, otherText_wellFormed, rfl, hreports.symm⟩, ?_⟩ .nil
    rw [hnames]
  have husual : Usual pictureService.queue pictureEvaluator := by
    constructor
    · refine pictureHash_injOn.mono ?_
      rintro _ ⟨io, hio, rfl⟩
      obtain ⟨path, hpath, rfl⟩ := List.mem_map.mp hio
      exact hpath
    · decide
  obtain ⟨s', hs', hresult⟩ := alerts_reports pictureEvaluator pictureService husual
    fun io _ => rfl
  obtain rfl : s = s' := Option.some.inj (hs.symm.trans hs')
  obtain ⟨alerts, service', hev, hiff⟩ := hresult _ (hpaths ▸ pictureHash_injOn)
    (hpaths ▸ by decide) hreported fun _ => by rw [List.flatten_singleton, hnames, hpaths]
  refine ⟨alerts, service', hev, (hiff 7).mpr ?_⟩
  unfold CalledRansomware examined SecondPass.entries
  rw [hlist]
  decide +kernel

end KernelEventsTrace.EtwService.Manager
