import KernelEventsTrace.EtwService.Manager.Evaluate
import KernelEventsTrace.Lib.FirstOccurrence
import Mathlib.Algebra.BigOperators.Group.Finset.Basic
import Mathlib.Algebra.Order.BigOperators.Group.Finset
import Mathlib.Data.Set.Function

/-!
# `KernelEventsTrace.Proofs.Manager.Accounting`: what the first pass counts for a process

`changedFiles` are the files that a process has changed, by the events. `creditedFiles` are those of
them whose first event of all is a change by this process. The first pass counts the latter
(`counts_eq`).

`accounting_iff`: the counts of a process are those of its changed files if and only if all of these
are credited to it, and their sizes add up to less than 2^64. Between two lists of events for which
this holds, the events of other processes and the order make no difference for the choice of the
processes.
-/

set_option autoImplicit false

namespace KernelEventsTrace.EtwService.Manager

open KernelEventsTrace.FirstOccurrence

/-! ### Specification -/

section
variable (fs : FileSystem) (events : List FileIoInfo) (pid : UInt64)

/-- The files that the first pass looks at. -/
def eligible (filePath : WString) : Prop :=
  fs.fileExist filePath = true ∧ fs.isExecutableFile filePath = false

/-- The event is a change of a nonempty eligible file by the process. -/
def changesAs (io : FileIoInfo) : Bool :=
  io.pid = pid ∧ changes io = true ∧ fs.fileExist io.filePath = true ∧
    fs.isExecutableFile io.filePath = false ∧ fs.getFileSize io.filePath ≠ 0

/-- The existing, nonempty files that are not executable and that the process wrote or renamed. -/
def changedFiles : Finset WString := someWith FileIoInfo.filePath (changesAs fs pid) events

/-- The changed files whose first event is a change by the process. -/
def creditedFiles : Finset WString := firstWith FileIoInfo.filePath (changesAs fs pid) events

/-- The size of some files together. -/
def sizeOf (files : Finset WString) : Nat := ∑ f ∈ files, (fs.getFileSize f).toNat

/-- The counts of a process are the number, the size and the directories of its changed files. -/
structure AccountingExact : Prop where
  fileCount : (counts fs events pid).fileCount.toNat = (changedFiles fs events pid).card
  totalSize : (counts fs events pid).totalSize.toNat = sizeOf fs (changedFiles fs events pid)
  dirs : (counts fs events pid).uniqueDirHashes =
    ((changedFiles fs events pid).image fs.parentPath).image fs.hash
  dirCount : (counts fs events pid).uniqueDirHashes.card =
    ((changedFiles fs events pid).image fs.parentPath).card

/-- The first event on every changed file of the process is a change by this process. The sizes of
the files add up to less than 2^64. -/
structure ChangedFirst : Prop where
  first : ∀ f ∈ changedFiles fs events pid, ∃ io,
    first FileIoInfo.filePath events f = some io ∧ io.pid = pid ∧ changes io = true
  size : sizeOf fs (changedFiles fs events pid) < 2 ^ 64

/-- The counts that a process has after some files were added. -/
def FileCount.ofFiles (files : Finset WString) : FileCount where
  fileCount := UInt64.ofNat files.card
  totalSize := UInt64.ofNat (sizeOf fs files)
  uniqueDirHashes := (files.image fs.parentPath).image fs.hash

end

/-! ### The files -/

variable {fs : FileSystem} {events : List FileIoInfo} {pid : UInt64}

/-- An event that is counted for the process. -/
theorem changesAs_iff {io : FileIoInfo} : changesAs fs pid io = true ↔
    io.pid = pid ∧ changes io = true ∧ fs.fileExist io.filePath = true ∧
      fs.isExecutableFile io.filePath = false ∧ fs.getFileSize io.filePath ≠ 0 :=
  decide_eq_true_iff

/-- The credited files were changed. -/
theorem creditedFiles_subset : creditedFiles fs events pid ⊆ changedFiles fs events pid :=
  firstWith_subset

/-- Changed files are not empty. -/
theorem size_ne_zero {f : WString} (h : f ∈ changedFiles fs events pid) :
    fs.getFileSize f ≠ 0 := by
  obtain ⟨io, -, hio, rfl⟩ := mem_someWith_iff.mp h
  exact (changesAs_iff.mp hio).2.2.2.2

/-- All changed files are credited if the first event on each of them is a change. -/
theorem creditedFiles_eq_iff : creditedFiles fs events pid = changedFiles fs events pid ↔
    ∀ f ∈ changedFiles fs events pid, ∃ io,
      first FileIoInfo.filePath events f = some io ∧ io.pid = pid ∧ changes io = true := by
  refine firstWith_eq_someWith_iff.trans (forall₂_congr fun f hf => ?_)
  constructor
  · rintro ⟨io, hfirst, hio⟩
    have hchanges := changesAs_iff.mp hio
    exact ⟨io, hfirst, hchanges.1, hchanges.2.1⟩
  · rintro ⟨io, hfirst, hpid, hchanges⟩
    -- What makes the file count is known from one of its changes.
    obtain ⟨other, -, hother, hpath⟩ := mem_someWith_iff.mp hf
    obtain ⟨-, hkey⟩ := first_spec hfirst
    have hsame : other.filePath = io.filePath := hpath.trans hkey.symm
    obtain ⟨-, -, hfile⟩ := changesAs_iff.mp hother
    rw [hsame] at hfile
    exact ⟨io, hfirst, changesAs_iff.mpr ⟨hpid, hchanges, hfile⟩⟩

/-- A nonempty file has at least one byte. -/
theorem card_le_sizeOf :
    (changedFiles fs events pid).card ≤ sizeOf fs (changedFiles fs events pid) := by
  unfold sizeOf
  rw [Finset.card_eq_sum_ones]
  refine Finset.sum_le_sum fun f hf => ?_
  have hne : (fs.getFileSize f).toNat ≠ 0 := fun h => size_ne_zero hf (UInt64.toNat_inj.mp h)
  exact Nat.one_le_iff_ne_zero.mpr hne

/-! ### The counts -/

/-- One more file. -/
theorem ofFiles_insert {files : Finset WString} {f : WString} (h : f ∉ files) :
    FileCount.ofFiles fs (insert f files) =
      (FileCount.ofFiles fs files).add fs f (fs.getFileSize f) := by
  have hsize : sizeOf fs (insert f files) = (fs.getFileSize f).toNat + sizeOf fs files :=
    Finset.sum_insert h
  unfold FileCount.ofFiles FileCount.add
  rw [Finset.card_insert_of_notMem h, hsize, Finset.image_insert, Finset.image_insert,
    UInt64.ofNat_add, UInt64.ofNat_add, UInt64.ofNat_toNat, UInt64.add_comm (fs.getFileSize f)]
  rfl

/-- The state of the first pass after some events. -/
structure PassInv (fs : FileSystem) (S : Set WString) (events : List FileIoInfo)
    (s : FirstPass) : Prop where
  size : ∀ f ∈ S, (s.fileSizeMap (fs.hash f)).isSome = true ↔
    eligible fs f ∧ first FileIoInfo.filePath events f ≠ none
  counts : ∀ pid, (s.pidFileCnt pid).getD {} = .ofFiles fs (creditedFiles fs events pid)
  known : ∀ pid, (s.pidFileCnt pid).isSome = true ↔ ∃ io ∈ events, io.pid = pid

variable {S : Set WString} {s : FirstPass} {io : FileIoInfo}

/-- An event that is not looked at, or on a path that is known, makes an entry for its process at
most. -/
theorem firstPassStep_of_known
    (h : ¬ eligible fs io.filePath ∨ (s.fileSizeMap (fs.hash io.filePath)).isSome = true) :
    firstPassStep fs s io = { s with
      pidFileCnt := Function.update s.pidFileCnt io.pid
        (some ((s.pidFileCnt io.pid).getD {})) } := by
  unfold firstPassStep
  dsimp only
  by_cases hskip : fs.fileExist io.filePath = false ∨ fs.isExecutableFile io.filePath = true
  · rw [if_pos hskip]
  · rw [if_neg hskip]
    -- The file is looked at, so its size is known.
    have heligible : eligible fs io.filePath := by
      simpa [eligible] using hskip
    cases hsize : s.fileSizeMap (fs.hash io.filePath) with
    | some size => rfl
    | none =>
      rw [hsize] at h
      simp [heligible] at h

/-- The first event on an eligible path. -/
theorem firstPassStep_of_new (he : eligible fs io.filePath)
    (hsize : s.fileSizeMap (fs.hash io.filePath) = none) :
    firstPassStep fs s io =
      { pidFileCnt := Function.update s.pidFileCnt io.pid (some
          (if changesAs fs io.pid io then
            ((s.pidFileCnt io.pid).getD {}).add fs io.filePath (fs.getFileSize io.filePath)
          else (s.pidFileCnt io.pid).getD {}))
        uniquePaths := if changesAs fs io.pid io then
          insert (fs.hash io.filePath) s.uniquePaths else s.uniquePaths
        fileSizeMap := Function.update s.fileSizeMap (fs.hash io.filePath)
          (some (fs.getFileSize io.filePath)) } := by
  have hskip : ¬ (fs.fileExist io.filePath = false ∨ fs.isExecutableFile io.filePath = true) := by
    simp [he.1, he.2]
  unfold firstPassStep
  dsimp only
  rw [if_neg hskip, hsize]
  dsimp only
  by_cases hzero : fs.getFileSize io.filePath = 0
  · -- An empty file is remembered, but not counted.
    have hno : changesAs fs io.pid io = false := by
      simp [changesAs, hzero]
    simp [hzero, hno]
  · by_cases hchanges : changes io = true
    · -- The file is eligible, and its size is not zero.
      have hyes : changesAs fs io.pid io = true := by
        simp [changesAs, hchanges, he.1, he.2, hzero]
      simp [hzero, hchanges, hyes]
    · have hno : changesAs fs io.pid io = false := by
        simp [changesAs, hchanges]
      simp [hzero, hchanges, hno]

/-- Before the first event nothing is counted. -/
theorem passInv_nil : PassInv fs S [] {} := by
  refine ⟨fun f _ => ?_, fun pid => rfl, fun pid => ?_⟩
  · simp [first]
  · simp

/-- A file is credited to the process that has changed it first. -/
theorem creditedFiles_snoc : creditedFiles fs (events ++ [io]) pid =
    if first FileIoInfo.filePath events io.filePath = none ∧ changesAs fs pid io = true then
      insert io.filePath (creditedFiles fs events pid)
    else creditedFiles fs events pid := firstWith_snoc

/-- The entries after an event whose process then has the counts `cnt`. -/
theorem PassInv.known_snoc (h : PassInv fs S events s) (cnt : FileCount) (pid : UInt64) :
    (Function.update s.pidFileCnt io.pid (some cnt) pid).isSome = true ↔
      ∃ e ∈ events ++ [io], e.pid = pid := by
  by_cases hpid : pid = io.pid
  · subst hpid
    simp
  · rw [Function.update_of_ne hpid, h.known]
    simp [Ne.symm hpid]

/-- The first event on an eligible path. The size of the file is not known yet, so the file is
counted now. -/
theorem PassInv.step_of_new (h : PassInv fs S events s) (hS : Set.InjOn fs.hash S)
    (hio : io.filePath ∈ S) (he : eligible fs io.filePath)
    (hfirst : first FileIoInfo.filePath events io.filePath = none) :
    PassInv fs S (events ++ [io]) (firstPassStep fs s io) := by
  have hnone : s.fileSizeMap (fs.hash io.filePath) = none := by
    rw [← Option.not_isSome_iff_eq_none, h.size io.filePath hio]
    exact fun hn => hn.2 hfirst
  rw [firstPassStep_of_new he hnone]
  refine ⟨fun f hf => ?_, fun pid => ?_, h.known_snoc _⟩
  · dsimp only
    by_cases hpath : f = io.filePath
    · subst hpath
      simp [first_snoc, he]
    · -- Another path has another hash.
      have hhash : fs.hash f ≠ fs.hash io.filePath := fun heq => hpath (hS hf hio heq)
      rw [Function.update_of_ne hhash, h.size f hf, first_snoc]
      simp [Ne.symm hpath]
  · dsimp only
    rw [creditedFiles_snoc]
    by_cases hpid : pid = io.pid
    · subst hpid
      rw [Function.update_self]
      by_cases hchanges : changesAs fs io.pid io = true
      · -- The file was not credited before, because there was no event on it.
        have hnotin : io.filePath ∉ creditedFiles fs events io.pid := by
          intro hin
          obtain ⟨e, he, -⟩ := mem_firstWith_iff.mp hin
          rw [hfirst] at he
          cases he
        rw [if_pos hchanges, if_pos ⟨hfirst, hchanges⟩, ofFiles_insert hnotin, ← h.counts]
        rfl
      · rw [if_neg hchanges, if_neg fun hc => hchanges hc.2, ← h.counts]
        rfl
    · have hother : ¬ changesAs fs pid io = true := by
        intro hc
        exact hpid (changesAs_iff.mp hc).1.symm
      rw [Function.update_of_ne hpid, if_neg fun hc => hother hc.2]
      exact h.counts pid

/-- An event on a file that is not looked at, or with an earlier event on the same file. -/
theorem PassInv.step_of_known (h : PassInv fs S events s) (hio : io.filePath ∈ S)
    (hold : ¬ (eligible fs io.filePath ∧
      first FileIoInfo.filePath events io.filePath = none)) :
    PassInv fs S (events ++ [io]) (firstPassStep fs s io) := by
  have hskip : ¬ eligible fs io.filePath ∨
      (s.fileSizeMap (fs.hash io.filePath)).isSome = true := by
    by_cases he : eligible fs io.filePath
    · exact .inr ((h.size io.filePath hio).mpr ⟨he, fun hn => hold ⟨he, hn⟩⟩)
    · exact .inl he
  rw [firstPassStep_of_known hskip]
  refine ⟨fun f hf => ?_, fun pid => ?_, h.known_snoc _⟩
  · dsimp only
    rw [h.size f hf, first_snoc]
    by_cases hpath : io.filePath = f
    · subst hpath
      by_cases he : eligible fs io.filePath
      · have hne : first FileIoInfo.filePath events io.filePath ≠ none := fun hn => hold ⟨he, hn⟩
        simp [he, hne]
      · simp [he]
    · simp [hpath]
  · dsimp only
    have hsame : creditedFiles fs (events ++ [io]) pid = creditedFiles fs events pid := by
      rw [creditedFiles_snoc]
      refine if_neg fun hc => hold ⟨?_, hc.1⟩
      -- A change that counts is one of an eligible file.
      obtain ⟨-, -, hexist, hexec, -⟩ := changesAs_iff.mp hc.2
      exact ⟨hexist, hexec⟩
    rw [hsame, ← h.counts]
    by_cases hpid : pid = io.pid
    · subst hpid
      rw [Function.update_self]
      rfl
    · rw [Function.update_of_ne hpid]

/-- An event keeps the invariant. -/
theorem PassInv.step (h : PassInv fs S events s) (hS : Set.InjOn fs.hash S)
    (hio : io.filePath ∈ S) : PassInv fs S (events ++ [io]) (firstPassStep fs s io) := by
  by_cases hnew : eligible fs io.filePath ∧ first FileIoInfo.filePath events io.filePath = none
  · exact h.step_of_new hS hio hnew.1 hnew.2
  · exact h.step_of_known hio hnew

/-- The induction is on the events, from the end. -/
theorem passInv_firstPass (hS : Set.InjOn fs.hash S) (events : List FileIoInfo)
    (hpaths : ∀ io ∈ events, io.filePath ∈ S) : PassInv fs S events (firstPass fs events) := by
  induction events using List.reverseRecOn with
  | nil => exact passInv_nil
  | append_singleton events io ih =>
    have hinv := ih fun e he => hpaths e (List.mem_append_left _ he)
    have hrun : firstPass fs (events ++ [io]) = firstPassStep fs (firstPass fs events) io := by
      unfold firstPass
      rw [List.foldl_append]
      rfl
    rw [hrun]
    exact hinv.step hS (hpaths io (by simp))

/-- The counts of a process are those of the files that are credited to it. -/
theorem counts_eq (hS : Set.InjOn fs.hash S) (hpaths : ∀ io ∈ events, io.filePath ∈ S)
    (pid : UInt64) : counts fs events pid = .ofFiles fs (creditedFiles fs events pid) :=
  (passInv_firstPass hS events hpaths).counts pid

/-- The counts are exact if and only if all changed files are credited. -/
theorem accountingExact_iff (hS : Set.InjOn fs.hash S)
    (hdirs : Set.InjOn fs.hash (Set.image fs.parentPath S))
    (hpaths : ∀ io ∈ events, io.filePath ∈ S) :
    AccountingExact fs events pid ↔ ChangedFirst fs events pid := by
  have hcounts := counts_eq hS hpaths pid
  have hle : (creditedFiles fs events pid).card ≤ (changedFiles fs events pid).card :=
    Finset.card_le_card creditedFiles_subset
  have hbytes : (changedFiles fs events pid).card ≤ sizeOf fs (changedFiles fs events pid) :=
    card_le_sizeOf
  constructor
  · intro h
    have hsize : sizeOf fs (changedFiles fs events pid) < 2 ^ 64 := by
      rw [← h.totalSize]
      exact UInt64.toNat_lt _
    have hcard : (creditedFiles fs events pid).card % 2 ^ 64 =
        (changedFiles fs events pid).card := by
      rw [← h.fileCount, hcounts]
      exact (UInt64.toNat_ofNat' ).symm
    -- A part of a finite set with as many elements is all of it.
    have hall : creditedFiles fs events pid = changedFiles fs events pid :=
      Finset.eq_of_subset_of_card_le creditedFiles_subset (by omega)
    exact ⟨creditedFiles_eq_iff.mp hall, hsize⟩
  · intro h
    have hsize := h.size
    rw [creditedFiles_eq_iff.mpr h.first] at hcounts
    have hparents : ∀ d ∈ (changedFiles fs events pid).image fs.parentPath,
        d ∈ Set.image fs.parentPath S := by
      intro d hd
      obtain ⟨f, hf, rfl⟩ := Finset.mem_image.mp hd
      obtain ⟨io, hio, -, rfl⟩ := mem_someWith_iff.mp hf
      exact Set.mem_image_of_mem _ (hpaths io hio)
    refine ⟨?_, ?_, ?_, ?_⟩
    · rw [hcounts]
      exact UInt64.toNat_ofNat_of_lt' (show _ < 2 ^ 64 by omega)
    · rw [hcounts]
      exact UInt64.toNat_ofNat_of_lt' hsize
    · rw [hcounts]
      rfl
    · rw [hcounts]
      exact Finset.card_image_of_injOn fun d hd d' hd' heq =>
        hdirs (hparents d hd) (hparents d' hd') heq

/-- The choice of a process depends on its counts, and on whether it has events at all. -/
theorem whiteListed_congr (hS : Set.InjOn fs.hash S) {events events' : List FileIoInfo}
    (hpaths : ∀ io ∈ events, io.filePath ∈ S) (hpaths' : ∀ io ∈ events', io.filePath ∈ S)
    (hevents : (∃ io ∈ events, io.pid = pid) ↔ ∃ io ∈ events', io.pid = pid)
    (hcounts : counts fs events pid = counts fs events' pid) :
    whiteListed fs events pid = whiteListed fs events' pid := by
  have hknown := (passInv_firstPass hS events hpaths).known pid
  have hknown' := (passInv_firstPass hS events' hpaths').known pid
  unfold whiteListed
  unfold counts at hcounts
  rw [← hknown, ← hknown'] at hevents
  cases hcnt : (firstPass fs events).pidFileCnt pid with
  | none =>
    cases hcnt' : (firstPass fs events').pidFileCnt pid with
    | none => rfl
    | some c' => simp [hcnt, hcnt'] at hevents
  | some c =>
    cases hcnt' : (firstPass fs events').pidFileCnt pid with
    | none => simp [hcnt, hcnt'] at hevents
    | some c' =>
      rw [hcnt, hcnt'] at hcounts
      obtain rfl : c = c' := hcounts
      rfl

/-- Two lists with the same events of a process, in any order, have the same changed files of it. -/
theorem changedFiles_congr {events events' : List FileIoInfo}
    (h : (events.filter fun io => io.pid = pid).Perm (events'.filter fun io => io.pid = pid)) :
    changedFiles fs events pid = changedFiles fs events' pid := by
  have hfilter : ∀ l : List FileIoInfo, l.filter (changesAs fs pid) =
      (l.filter fun io => io.pid = pid).filter (changesAs fs pid) := by
    intro l
    rw [List.filter_filter]
    refine List.filter_congr fun io _ => ?_
    by_cases hpid : io.pid = pid
    · simp [hpid]
    · simp [changesAs, hpid]
  refine someWith_congr ?_
  rw [hfilter events, hfilter events']
  exact h.filter _

/-- For every list of events the counts of a process are those of its changed files if and only if
its changes come first on each of them. Then the choice of the process depends on its own events
only, in any order. -/
theorem accounting_iff (fs : FileSystem) (S : Set WString) (hS : Set.InjOn fs.hash S)
    (hdirs : Set.InjOn fs.hash (Set.image fs.parentPath S)) :
    (∀ events pid, (∀ io ∈ events, io.filePath ∈ S) →
      (AccountingExact fs events pid ↔ ChangedFirst fs events pid)) ∧
    ∀ events events' pid, (∀ io ∈ events, io.filePath ∈ S) →
      (∀ io ∈ events', io.filePath ∈ S) →
      ChangedFirst fs events pid → ChangedFirst fs events' pid →
      (events.filter fun io => io.pid = pid).Perm (events'.filter fun io => io.pid = pid) →
      whiteListed fs events pid = whiteListed fs events' pid := by
  refine ⟨fun events pid hpaths => accountingExact_iff hS hdirs hpaths, ?_⟩
  intro events events' pid hpaths hpaths' h h' hperm
  have hchanged : changedFiles fs events pid = changedFiles fs events' pid :=
    changedFiles_congr hperm
  have hcounts : counts fs events pid = counts fs events' pid := by
    rw [counts_eq hS hpaths, counts_eq hS hpaths', creditedFiles_eq_iff.mpr h.first,
      creditedFiles_eq_iff.mpr h'.first, hchanged]
  have hmem : ∀ l : List FileIoInfo, (∃ io ∈ l, io.pid = pid) ↔
      (l.filter fun io => io.pid = pid) ≠ [] := by
    intro l
    simp [List.filter_eq_nil_iff]
  have hevents : (∃ io ∈ events, io.pid = pid) ↔ ∃ io ∈ events', io.pid = pid := by
    rw [hmem, hmem, ne_eq, ne_eq, ← List.length_eq_zero_iff, ← List.length_eq_zero_iff,
      hperm.length_eq]
  exact whiteListed_congr hS hpaths hpaths' hevents hcounts

/-! ### Ten files -/

/-- All files exist, and have one byte. The directory of a path is all but its last character. -/
def flatFiles : FileSystem where
  fileExist _ := true
  isExecutableFile _ := false
  getFileSize _ := 1
  parentPath path := path.dropLast
  hash path := path.foldl (fun h c => 31 * h + c.toUInt64 + 1) 0

/-- Ten files in two directories. -/
def tenFiles : List WString :=
  (wide "abcdefghij").map fun c => if c < 102 then wide "x" ++ [c] else wide "y" ++ [c]

/-- The process 2 writes all of them. -/
def writesTen : List FileIoInfo := tenFiles.map fun f => ⟨WRITE_FLAG, f, 2⟩

/-- The process 1 has written one of them before. -/
def sharedFirst : FileIoInfo := ⟨WRITE_FLAG, wide "xa", 1⟩

/-- The ten files are the same in both orders. -/
theorem accounting_iff_writesTen :
    ChangedFirst flatFiles writesTen 2 ∧
      whiteListed flatFiles writesTen 2 = whiteListed flatFiles writesTen.reverse 2 := by
  have hS : Set.InjOn flatFiles.hash {f | f ∈ tenFiles} := by
    have hall : ∀ f ∈ tenFiles, ∀ f' ∈ tenFiles, flatFiles.hash f = flatFiles.hash f' → f = f' := by
      decide
    exact fun f hf f' hf' => hall f hf f' hf'
  have hdirs : Set.InjOn flatFiles.hash (Set.image flatFiles.parentPath {f | f ∈ tenFiles}) := by
    have hall : ∀ f ∈ tenFiles, ∀ f' ∈ tenFiles,
        flatFiles.hash (flatFiles.parentPath f) = flatFiles.hash (flatFiles.parentPath f') →
          flatFiles.parentPath f = flatFiles.parentPath f' := by
      decide
    rintro d ⟨f, hf, rfl⟩ d' ⟨f', hf', rfl⟩
    exact hall f hf f' hf'
  have hpaths : ∀ io ∈ writesTen, io.filePath ∈ {f | f ∈ tenFiles} := by
    intro io hio
    obtain ⟨f, hf, rfl⟩ := List.mem_map.mp hio
    exact hf
  have hpaths' : ∀ io ∈ writesTen.reverse, io.filePath ∈ {f | f ∈ tenFiles} :=
    fun io hio => hpaths io (List.mem_reverse.mp hio)
  obtain ⟨hexact, hsame⟩ := accounting_iff flatFiles {f | f ∈ tenFiles} hS hdirs
  have h := (hexact writesTen 2 hpaths).mp
    ⟨by decide, by decide, by decide, by decide⟩
  have h' := (hexact writesTen.reverse 2 hpaths').mp
    ⟨by decide, by decide, by decide, by decide⟩
  refine ⟨h, hsame writesTen writesTen.reverse 2 hpaths hpaths' h h' ?_⟩
  exact ((List.reverse_perm writesTen).symm).filter _

/-- The process 2 is chosen for its ten files. When the process 1 has written one of them before, it
has nine and is not. -/
theorem not_accounting_sharedFirst :
    whiteListed flatFiles writesTen 2 = false ∧
      whiteListed flatFiles (sharedFirst :: writesTen) 2 = true ∧
      ¬ AccountingExact flatFiles (sharedFirst :: writesTen) 2 := by
  refine ⟨by decide, by decide, fun h => ?_⟩
  have hcount : (counts flatFiles (sharedFirst :: writesTen) 2).fileCount.toNat = 9 := by decide
  have hchanged : (changedFiles flatFiles (sharedFirst :: writesTen) 2).card = 10 := by decide
  have hsame : (9 : Nat) = 10 := hcount.symm.trans (h.fileCount.trans hchanged)
  exact absurd hsame (by decide)

end KernelEventsTrace.EtwService.Manager
