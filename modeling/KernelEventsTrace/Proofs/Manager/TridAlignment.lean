import KernelEventsTrace.Proofs.Manager.TridOutput
import Mathlib.Data.List.Flatten
import Mathlib.Data.List.Forall2
import Mathlib.Data.List.Induction
import Mathlib.Data.Set.Function

/-!
# `KernelEventsTrace.Proofs.Manager.TridAlignment`: verdicts and the paths they are stored for

`batches` are the lists of files that `CheckTrID` puts into one command each. TrID reports some of
the files of each command, in order (`Reported`). `CheckTrID` returns the results of all reports,
one behind the other (`checkTrID_eq`), and the result at a position is stored for the path at this
position (`tridMap_spec`).

`aligned_iff`: every path has the verdict of its own report, or none, if the files that are reported
are the first ones of the list. If no path occurs twice, this is the only case.
-/

set_option autoImplicit false

namespace KernelEventsTrace.EtwService.Manager

/-! ### Batches -/

/-- The command for some files. -/
def command (batch : List WString) : WString := commandStart ++ batch.flatMap argument

/-- The batches of the files that are left, when some files are in the command already. -/
def batchesFrom (batch : List WString) : List WString → List (List WString)
  | [] => []
  | file :: files =>
    if (command (batch ++ [file])).length > 7000 ∨ files = [] then
      (batch ++ [file]) :: batchesFrom [] files
    else batchesFrom (batch ++ [file]) files

/-- The batches for a list of paths. There are none if the paths are too few. -/
def batches (paths : List WString) : List (List WString) :=
  if paths.length ≥ MIN_FILE_COUNT.toNat then batchesFrom [] paths else []

/-- The batches have all files, in order. -/
theorem batchesFrom_flatten (batch files : List WString) (hne : files ≠ []) :
    (batchesFrom batch files).flatten = batch ++ files := by
  induction files generalizing batch with
  | nil => exact absurd rfl hne
  | cons file files ih =>
    unfold batchesFrom
    by_cases hfull : (command (batch ++ [file])).length > 7000 ∨ files = []
    · rw [if_pos hfull, List.flatten_cons]
      by_cases hlast : files = []
      · -- The last batch.
        subst hlast
        simp [batchesFrom]
      · rw [ih [] hlast]
        simp
    · rw [if_neg hfull, ih _ fun hlast => hfull (.inr hlast)]
      simp

/-- The files of the batches are among the paths. -/
theorem batches_flatten_sublist (paths : List WString) : (batches paths).flatten.Sublist paths := by
  unfold batches
  split
  · by_cases hnil : paths = []
    · subst hnil
      exact List.Sublist.refl _
    · rw [batchesFrom_flatten [] paths hnil, List.nil_append]
  · exact List.nil_sublist paths

/-- A command grows by the argument of its file. -/
theorem command_concat (batch : List WString) (file : WString) :
    command (batch ++ [file]) = command batch ++ argument file := by
  unfold command
  simp

/-! ### The results of all commands -/

section
variable (locale : Locale) (isPrintableFile : WString → Bool) (exec : ExecCommand)

/-- The output of a command is empty, or a text with these reports. -/
def Prints (output : WString) (reports : List Report) : Prop :=
  (output = [] ∧ reports = []) ∨
    ∃ t : TridText, t.WellFormed locale ∧ output = t.render ∧ reports = reportsOf t.items

/-- TrID reports files of the batch, in the order of the command, and each at most once. -/
def ReportsBatch (batch : List WString × Nat) (reports : List Report) : Prop :=
  Prints locale (exec batch.2 (command batch.1)) reports ∧
    (reports.map Report.name).Sublist batch.1

/-- The reports of all commands. -/
def Reported (paths : List WString) (reports : List (List Report)) : Prop :=
  List.Forall₂ (ReportsBatch locale exec) (batches paths).zipIdx reports

/-- A command for a batch. -/
def Scan.runBatch (s : Scan) (batch : List WString) : Option Scan :=
  Scan.run locale isPrintableFile exec { s with cmd := command batch }

variable {locale isPrintableFile exec}

/-- Between two commands, the next one has no files yet. -/
theorem Scan.cmd_of_run {s next : Scan}
    (h : s.run locale isPrintableFile exec = some next) : next.cmd = command [] := by
  unfold Scan.run at h
  dsimp only at h
  split at h
  · cases h
    rfl
  · obtain ⟨output, -, rfl⟩ := Option.map_eq_some_iff.mp h
    rfl

/-- There is a batch as long as there are files. -/
theorem batchesFrom_ne_nil {files : List WString} (batch : List WString) (hne : files ≠ []) :
    batchesFrom batch files ≠ [] := by
  intro hnil
  have hflat := batchesFrom_flatten batch files hne
  rw [hnil] at hflat
  exact hne (List.append_eq_nil_iff.mp hflat.symm).2

/-- The command of the state is not looked at. -/
theorem foldlM_runBatch_cmd {rest : List (List WString)} (hne : rest ≠ []) (s : Scan)
    (cmd : WString) :
    rest.foldlM (Scan.runBatch locale isPrintableFile exec) { s with cmd := cmd } =
      rest.foldlM (Scan.runBatch locale isPrintableFile exec) s := by
  cases rest with
  | nil => exact absurd rfl hne
  | cons batch rest => rfl

/-- The loop runs one command for each batch. The induction is on the files that are left. -/
theorem foldlM_step (files batch : List WString) (hne : files ≠ []) (i n : Nat)
    (hn : i + files.length = n) (s : Scan) (hcmd : s.cmd = command batch) :
    (files.zipIdx i).foldlM (Scan.step locale isPrintableFile exec n) s =
      (batchesFrom batch files).foldlM (Scan.runBatch locale isPrintableFile exec) s := by
  induction files generalizing batch i s with
  | nil => exact absurd rfl hne
  | cons file files ih =>
    rw [List.length_cons] at hn
    -- The source compares the index, the batches are about the files that are left.
    have hlast : i = n - 1 ↔ files = [] := by
      rw [← List.length_eq_zero_iff]
      omega
    have hstep : Scan.step locale isPrintableFile exec n s (file, i) =
        if (command (batch ++ [file])).length > 7000 ∨ files = [] then
          s.runBatch locale isPrintableFile exec (batch ++ [file])
        else some { s with cmd := command (batch ++ [file]) } := by
      unfold Scan.step Scan.runBatch
      dsimp only
      rw [hcmd, ← command_concat]
      exact if_congr (or_congr_right hlast) rfl rfl
    rw [List.zipIdx_cons, List.foldlM_cons, hstep]
    unfold batchesFrom
    by_cases hfull : (command (batch ++ [file])).length > 7000 ∨ files = []
    · -- The batch is complete, and the next one is empty.
      rw [if_pos hfull, if_pos hfull, List.foldlM_cons]
      refine Option.bind_congr fun next hnext => ?_
      by_cases hnil : files = []
      · subst hnil
        rfl
      · exact ih [] hnil (i + 1) (by omega) next (Scan.cmd_of_run hnext)
    · -- The file waits in the command.
      have hnil : files ≠ [] := fun hnil => hfull (.inr hnil)
      rw [if_neg hfull, if_neg hfull]
      show (files.zipIdx (i + 1)).foldlM _ _ = _
      rw [ih (batch ++ [file]) hnil (i + 1) (by omega) _ rfl,
        foldlM_runBatch_cmd (batchesFrom_ne_nil _ hnil)]

/-- A command adds the results of its reports. -/
theorem Scan.runBatch_of_prints (s : Scan) {batch : List WString} {reports : List Report}
    (h : Prints locale (exec s.commands.length (command batch)) reports) :
    ∃ next, s.runBatch locale isPrintableFile exec batch = some next ∧
      next.tridOutput = s.tridOutput ++ reports.map (Report.result locale isPrintableFile) ∧
      next.commands.length = s.commands.length + 1 := by
  unfold Scan.runBatch Scan.run
  dsimp only
  rcases h with ⟨hempty, rfl⟩ | ⟨t, ht, hrender, rfl⟩
  · -- The command has failed.
    rw [if_pos hempty]
    exact ⟨_, rfl, (List.append_nil _).symm, List.length_append⟩
  · obtain ⟨out, hout, hresults⟩ := analyzeTridOutput_text isPrintableFile ht
    -- An empty output would have no character to look at.
    have hne : t.render ≠ [] := by
      intro hnil
      have hnone : addNewlines [] = none := rfl
      rw [hnil, hnone] at hout
      cases hout
    rw [hrender, if_neg hne, hout]
    refine ⟨_, rfl, ?_, List.length_append⟩
    show s.tridOutput ++ analyzeTridOutput _ _ _ = _
    rw [hresults]

/-- The loop over the commands. The number of commands that were run is the position of the next
batch. -/
theorem foldlM_runBatch (isPrintableFile : WString → Bool) (rest : List (List WString))
    (reports : List (List Report)) (s : Scan)
    (h : List.Forall₂ (ReportsBatch locale exec) (rest.zipIdx s.commands.length) reports) :
    ∃ next, rest.foldlM (Scan.runBatch locale isPrintableFile exec) s = some next ∧
      next.tridOutput =
        s.tridOutput ++ reports.flatten.map (Report.result locale isPrintableFile) := by
  induction rest generalizing reports s with
  | nil =>
    cases h
    exact ⟨s, rfl, (List.append_nil _).symm⟩
  | cons batch rest ih =>
    rw [List.zipIdx_cons] at h
    cases h with
    | @cons _ first _ reports hfirst hrest =>
      obtain ⟨s', hrun, hout, hlen⟩ := Scan.runBatch_of_prints s hfirst.1
      -- The next command is the one at the next position.
      rw [← hlen] at hrest
      obtain ⟨next, hnext, hresults⟩ := ih reports s' hrest
      refine ⟨next, ?_, ?_⟩
      · rw [List.foldlM_cons, hrun]
        exact hnext
      · rw [hresults, hout, List.append_assoc, ← List.map_append]
        rfl

/-- `CheckTrID` returns the results of all reports, in order. -/
theorem checkTrID_eq {files : List WString} (hne : files ≠ []) {reports : List (List Report)}
    (h : List.Forall₂ (ReportsBatch locale exec) (batchesFrom [] files).zipIdx reports) :
    checkTrID locale isPrintableFile exec files =
      some (reports.flatten.map (Report.result locale isPrintableFile)) := by
  obtain ⟨next, hnext, hout⟩ := foldlM_runBatch isPrintableFile _ _ {} h
  unfold checkTrID
  rw [foldlM_step files [] hne 0 files.length (by omega) {} rfl, hnext]
  exact congrArg some hout

end

/-! ### The map -/

section
variable {hash : WString → UInt64} {paths : List WString}

/-- The entries for the paths are those at the positions of the results. -/
structure Joined (hash : WString → UInt64) (paths : List WString)
    (results : List (WString × Bool)) (m : TridMap) : Prop where
  entry : ∀ path ∈ paths, ∀ verdict, m (hash path) = some verdict →
    ∃ (i : Nat) (file : WString), results[i]? = some (file, verdict) ∧ paths[i]? = some path
  position : ∀ (i : Nat) (path : WString), i < results.length → paths[i]? = some path →
    (m (hash path)).isSome

/-- The loop that fills the map. The induction takes the results from the end, because the last one
decides about an entry. -/
theorem foldlM_tridMapStep (hinj : Set.InjOn hash {path | path ∈ paths})
    (results : List (WString × Bool)) (hlen : results.length ≤ paths.length) :
    ∃ m, results.zipIdx.foldlM (tridMapStep hash paths) (fun _ => none) = some m ∧
      Joined hash paths results m := by
  induction results using List.reverseRecOn with
  | nil =>
    refine ⟨fun _ => none, rfl, ?_, ?_⟩
    · intro path _ verdict hentry
      exact absurd hentry (by simp)
    · intro i path hi
      exact absurd hi (Nat.not_lt_zero i)
  | append_singleton results result ih =>
    rw [List.length_append, List.length_singleton] at hlen
    obtain ⟨m, hm, hjoined⟩ := ih (by omega)
    have hlast : results.length < paths.length := by omega
    have hpath : paths[results.length]? = some paths[results.length] :=
      List.getElem?_eq_getElem hlast
    have hstep : tridMapStep hash paths m (result, results.length) =
        some (Function.update m (hash paths[results.length]) (some result.2)) := by
      unfold tridMapStep
      dsimp only
      rw [hpath]
      rfl
    refine ⟨Function.update m (hash paths[results.length]) (some result.2), ?_, ?_, ?_⟩
    · rw [List.zipIdx_append, List.foldlM_append, hm]
      show (List.zipIdx [result] (0 + results.length)).foldlM (tridMapStep hash paths) m = _
      rw [Nat.zero_add, List.zipIdx_singleton, List.foldlM_cons, hstep]
      rfl
    · intro path hmem verdict hentry
      by_cases hsame : hash path = hash paths[results.length]
      · -- The entry is the new one.
        rw [hsame, Function.update_self] at hentry
        have heq : path = paths[results.length] :=
          hinj hmem (List.getElem_mem hlast) hsame
        refine ⟨results.length, result.1, ?_, heq ▸ hpath⟩
        rw [List.getElem?_concat_length, ← Option.some.inj hentry]
      · -- An entry of an earlier result.
        rw [Function.update_of_ne hsame] at hentry
        obtain ⟨i, file, hi, hpathi⟩ := hjoined.entry path hmem verdict hentry
        refine ⟨i, file, ?_, hpathi⟩
        have hlt : i < results.length := (List.getElem?_eq_some_iff.mp hi).1
        rw [List.getElem?_append_left hlt, hi]
    · intro i path hi hpathi
      by_cases hsame : hash path = hash paths[results.length]
      · -- An entry is replaced, never removed.
        rw [hsame, Function.update_self]
        rfl
      · rw [Function.update_of_ne hsame]
        refine hjoined.position i path ?_ hpathi
        have hne : i ≠ results.length := by
          rintro rfl
          rw [hpath] at hpathi
          exact hsame (congrArg hash (Option.some.inj hpathi).symm)
        rw [List.length_append, List.length_singleton] at hi
        omega

variable {locale : Locale} {isPrintableFile : WString → Bool} {exec : ExecCommand}
  {reports : List (List Report)}

/-- The files of all reports are some of the paths, in order. -/
theorem Reported.sublist (h : Reported locale exec paths reports) :
    (reports.flatten.map Report.name).Sublist paths := by
  have hrest : ∀ (rest : List (List WString)) (k : Nat) (reports : List (List Report)),
      List.Forall₂ (ReportsBatch locale exec) (rest.zipIdx k) reports →
        (reports.flatten.map Report.name).Sublist rest.flatten := by
    intro rest
    induction rest with
    | nil =>
      intro k reports h
      cases h
      exact List.Sublist.refl _
    | cons batch rest ih =>
      intro k reports h
      rw [List.zipIdx_cons] at h
      cases h with
      | cons hfirst hrest =>
        rw [List.flatten_cons, List.flatten_cons, List.map_append]
        exact hfirst.2.append (ih _ _ hrest)
  exact (hrest _ 0 reports h).trans (batches_flatten_sublist paths)

/-- The results of all reports. -/
def results (locale : Locale) (isPrintableFile : WString → Bool) (reports : List (List Report)) :
    List (WString × Bool) :=
  reports.flatten.map (Report.result locale isPrintableFile)

/-- The map joins the results of all reports with the paths. -/
theorem tridMap_spec (isPrintableFile : WString → Bool)
    (hinj : Set.InjOn hash {path | path ∈ paths}) (h : Reported locale exec paths reports) :
    ∃ m, tridMap locale isPrintableFile exec hash paths = some m ∧
      Joined hash paths (results locale isPrintableFile reports) m := by
  have hlen : (results locale isPrintableFile reports).length ≤ paths.length := by
    have hsub := h.sublist.length_le
    rw [List.length_map] at hsub
    unfold results
    rwa [List.length_map]
  obtain ⟨m, hm, hjoined⟩ := foldlM_tridMapStep hinj _ hlen
  refine ⟨m, ?_, hjoined⟩
  have hout : tridOutput locale isPrintableFile exec paths =
      some (results locale isPrintableFile reports) := by
    unfold tridOutput
    unfold Reported batches at h
    by_cases hmin : paths.length ≥ MIN_FILE_COUNT.toNat
    · rw [if_pos hmin] at h ⊢
      have hne : paths ≠ [] := by
        rintro rfl
        exact absurd hmin (by decide)
      exact checkTrID_eq hne h
    · -- TrID does not run.
      rw [if_neg hmin] at h ⊢
      cases h
      rfl
  unfold tridMap
  rw [hout]
  exact hm

/-- Entries are those of paths that were reported, with the verdict of the report. -/
def Aligned (locale : Locale) (isPrintableFile : WString → Bool) (exec : ExecCommand)
    (hash : WString → UInt64) (paths : List WString) (reports : List (List Report)) : Prop :=
  ∃ m, tridMap locale isPrintableFile exec hash paths = some m ∧
    ∀ path ∈ paths, ∀ verdict, m (hash path) = some verdict →
      ∃ r ∈ reports.flatten, r.name = path ∧ verdict = r.verdict locale isPrintableFile

/-- The files of the reports are the first paths. -/
def InFront (paths : List WString) (reports : List (List Report)) : Prop :=
  reports.flatten.map Report.name <+: paths

/-- The position of a report is that of its file. -/
theorem aligned_of_inFront (hinj : Set.InjOn hash {path | path ∈ paths})
    (h : Reported locale exec paths reports) (hfront : InFront paths reports) :
    Aligned locale isPrintableFile exec hash paths reports := by
  obtain ⟨m, hm, hjoined⟩ := tridMap_spec isPrintableFile hinj h
  refine ⟨m, hm, fun path hpath verdict hentry => ?_⟩
  obtain ⟨i, file, hresult, hi⟩ := hjoined.entry path hpath verdict hentry
  -- The result at the position is that of a report, and the report is at the same position.
  unfold results at hresult
  rw [List.getElem?_map, Option.map_eq_some_iff] at hresult
  obtain ⟨r, hr, hpair⟩ := hresult
  refine ⟨r, List.mem_of_getElem? hr, ?_, (congrArg Prod.snd hpair).symm⟩
  have hname : (reports.flatten.map Report.name)[i]? = some r.name := by
    rw [List.getElem?_map, hr]
    rfl
  obtain ⟨rest, hrest⟩ := hfront
  rw [← hrest, List.getElem?_append_left (List.getElem?_eq_some_iff.mp hname).1, hname] at hi
  exact Option.some.inj hi

/-- Some entries of a list without repetitions are in front if they include the first ones, as many
as they are. -/
theorem prefix_of_take_subset {names : List WString} (hnodup : paths.Nodup)
    (hsub : names.Sublist paths) (htake : paths.take names.length ⊆ names) : names <+: paths := by
  have hfirst : (paths.take names.length).Sublist paths := List.take_sublist _ _
  have hlen : names.length ≤ (paths.take names.length).length := by
    rw [List.length_take, Nat.min_eq_left hsub.length_le]
  have hperm : (paths.take names.length).Perm names :=
    (List.subperm_of_subset (hfirst.nodup hnodup) htake).perm_of_length_le hlen
  -- Both are in the order of the paths.
  have heq : paths.take names.length = names := (hnodup.perm_iff_eq_of_sublist hfirst hsub).mp hperm
  rw [← heq]
  exact List.take_prefix _ _

/-- The first paths have entries, as many as there are reports. They are all reported, so there is
no report for another path. -/
theorem inFront_of_aligned (hinj : Set.InjOn hash {path | path ∈ paths})
    (h : Reported locale exec paths reports) (hnodup : paths.Nodup)
    (haligned : Aligned locale isPrintableFile exec hash paths reports) :
    InFront paths reports := by
  obtain ⟨m, hm, hjoined⟩ := tridMap_spec isPrintableFile hinj h
  obtain ⟨m', hm', hentries⟩ := haligned
  obtain rfl : m = m' := Option.some.inj (hm.symm.trans hm')
  have hsub := h.sublist
  unfold InFront
  generalize hnames : reports.flatten.map Report.name = names at hsub ⊢
  have hlength : (results locale isPrintableFile reports).length = names.length := by
    unfold results
    rw [← hnames, List.length_map, List.length_map]
  have htake : paths.take names.length ⊆ names := by
    intro path hpath
    obtain ⟨i, hlt, hi⟩ := List.mem_take_iff_getElem.mp hpath
    obtain ⟨hfew, hpaths⟩ := Nat.lt_min.mp hlt
    obtain ⟨verdict, hentry⟩ := Option.isSome_iff_exists.mp (hjoined.position i path
      (hlength ▸ hfew) (List.getElem?_eq_some_iff.mpr ⟨hpaths, hi⟩))
    obtain ⟨r, hr, rfl, -⟩ := hentries path (List.mem_of_mem_take hpath) verdict hentry
    rw [← hnames]
    exact List.mem_map_of_mem hr
  exact prefix_of_take_subset hnodup hsub htake

/-- The verdicts are stored for their paths if the files of the reports are the first paths. In a
list without repeated paths there is no other way. -/
theorem aligned_iff (isPrintableFile : WString → Bool)
    (hinj : Set.InjOn hash {path | path ∈ paths}) (h : Reported locale exec paths reports) :
    (InFront paths reports → Aligned locale isPrintableFile exec hash paths reports) ∧
      (paths.Nodup →
        (Aligned locale isPrintableFile exec hash paths reports ↔ InFront paths reports)) :=
  ⟨aligned_of_inFront hinj h,
    fun hnodup => ⟨inFront_of_aligned hinj h hnodup, aligned_of_inFront hinj h⟩⟩

end

/-! ### Ten pictures -/

/-- Ten files, which fit into one command. -/
def tenPictures : List WString := (wide "abcdefghij").map fun c => c :: wide ".png"

/-- A hash that tells the ten names apart. -/
def pictureHash (path : WString) : UInt64 := path.foldl (fun h c => 31 * h + c.toUInt64 + 1) 0

/-- What TrID prints first. -/
def pictureHeader : List WString :=
  [[], wide "TrID", wide "Definitions found: 1", wide "Analyzing...", []]

/-- What TrID prints for a picture. -/
def pictureBody : List WString := [wide "100.0% (.PNG) Picture (8000/1)"]

/-- TrID takes the file for a picture. -/
def pictureReport (name : WString) : Report := ⟨name, pictureBody⟩

/-- The output of TrID if it reports one file only. -/
def pictureText (name : WString) : TridText where
  crlf := true
  closed := true
  header := pictureHeader
  items := [.report (pictureReport name)]
  body := (pictureReport name).lines

/-- TrID prints this report only. -/
def reportOnly (name : WString) : ExecCommand := fun _ _ => (pictureText name).render

/-- The ten names have different hashes. -/
theorem pictureHash_injOn : Set.InjOn pictureHash {path | path ∈ tenPictures} := by
  have hall : ∀ f ∈ tenPictures, ∀ f' ∈ tenPictures, pictureHash f = pictureHash f' → f = f' := by
    decide
  exact fun f hf f' hf' => hall f hf f' hf'

/-- The output for a picture is one of TrID. -/
theorem pictureText_wellFormed {name : WString} (hne : name ≠ []) (hplain : Plain name) :
    (pictureText name).WellFormed Locale.asciiOnly where
  header_length := rfl
  header_plain := by
    show ∀ l ∈ pictureHeader, _ ∧ _
    decide
  items := by
    have hbody : ∀ line ∈ pictureBody, line ≠ [] ∧ Plain line ∧ NoFile Locale.asciiOnly line := by
      unfold Plain NoFile
      decide
    intro item hitem
    rw [List.mem_singleton.mp hitem]
    exact ⟨hne, hplain, hbody⟩
  body := by
    show SameEnd (pictureReport name).lines ((pictureReport name).lines ++ [])
    rw [List.append_nil]
    exact SameEnd.refl _

/-- There is one command, and the output is as expected. -/
theorem reported_picture {name : WString} (hmem : name ∈ tenPictures) :
    Reported Locale.asciiOnly (reportOnly name) tenPictures [[pictureReport name]] := by
  have hbatches : batches tenPictures = [tenPictures] := by decide +kernel
  have hname : ∀ name ∈ tenPictures, name ≠ [] ∧ Plain name := by
    unfold Plain
    decide
  obtain ⟨hne, hplain⟩ := hname name hmem
  unfold Reported
  rw [hbatches]
  exact .cons ⟨.inr ⟨_, pictureText_wellFormed hne hplain, rfl, rfl⟩,
    List.singleton_sublist.mpr hmem⟩ .nil

/-- TrID has reported the first of ten pictures only, and the verdict is its own. -/
theorem aligned_iff_pictures :
    InFront tenPictures [[pictureReport (wide "a.png")]] ∧ tenPictures.Nodup ∧
      Aligned Locale.asciiOnly (fun _ => false) (reportOnly (wide "a.png")) pictureHash tenPictures
        [[pictureReport (wide "a.png")]] := by
  have hfront : InFront tenPictures [[pictureReport (wide "a.png")]] := by
    unfold InFront
    decide
  have hnodup : tenPictures.Nodup := by decide
  have hmem : wide "a.png" ∈ tenPictures := by decide
  obtain ⟨-, hiff⟩ := aligned_iff (fun _ => false) pictureHash_injOn (reported_picture hmem)
  exact ⟨hfront, hnodup, (hiff hnodup).mpr hfront⟩

/-- If only the second file is reported, the first one has its verdict. -/
theorem not_aligned_secondPicture :
    Reported Locale.asciiOnly (reportOnly (wide "b.png")) tenPictures
        [[pictureReport (wide "b.png")]] ∧
      Set.InjOn pictureHash {path | path ∈ tenPictures} ∧
      ((tridMap Locale.asciiOnly (fun _ => false) (reportOnly (wide "b.png")) pictureHash
        tenPictures).map fun m => tenPictures.map fun path => m (pictureHash path)) =
          some (some true :: List.replicate 9 none) ∧
      ¬ Aligned Locale.asciiOnly (fun _ => false) (reportOnly (wide "b.png")) pictureHash
        tenPictures [[pictureReport (wide "b.png")]] := by
  have hreported : Reported Locale.asciiOnly (reportOnly (wide "b.png")) tenPictures
      [[pictureReport (wide "b.png")]] := reported_picture (by decide)
  refine ⟨hreported, pictureHash_injOn, by decide +kernel, fun haligned => ?_⟩
  have hfront := inFront_of_aligned pictureHash_injOn hreported (by decide) haligned
  unfold InFront at hfront
  exact absurd hfront (by decide)

end KernelEventsTrace.EtwService.Manager
