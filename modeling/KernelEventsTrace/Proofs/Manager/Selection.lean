import KernelEventsTrace.EtwService.Manager.SecondPass
import KernelEventsTrace.Proofs.Manager.Accounting
import Mathlib.Algebra.Order.Ring.Nat

/-!
# `KernelEventsTrace.Proofs.Manager.Selection`: what is selected for the scan

`ScanSelection` is what the second pass leaves: two lists of the same files, each of them once, of
processes that have passed the gate, with the counters that belong to them and within the budget.

`Selecting` is the invariant of the loop. The hash of a listed file is not in `unique_paths` any
more, so no file is listed again. `Account` is its part about one process: the budget is charged
before a file is listed, and it stays charged if the copy fails. So the listed files have at most
the charged size.
-/

set_option autoImplicit false

namespace KernelEventsTrace.EtwService.Manager

open KernelEventsTrace.FirstOccurrence

/-! ### Specification -/

/-- The listed files of a process. -/
def SecondPass.entries (s : SecondPass) (pid : UInt64) : List FileInfo :=
  s.fileList.filter fun e => e.pid = pid

/-- The counters of a process. -/
def SecondPass.count (s : SecondPass) (pid : UInt64) : FileCount := (s.pidFileCnt pid).getD {}

/-- The size of some listed files together. -/
def listedSize (fs : FileSystem) (entries : List FileInfo) : Nat :=
  (entries.map fun e => (fs.getFileSize e.currentPath).toNat).sum

/-- What the second pass has selected. -/
structure ScanSelection (fs : FileSystem) (events : List FileIoInfo) (s : SecondPass) : Prop where
  nodup : (s.fileList.map FileInfo.currentPath).Nodup
  paths_eq : s.paths = s.fileList.map FileInfo.tmpPath
  passed : ∀ e ∈ s.fileList, whiteListed fs events e.pid = false
  counted : ∀ e ∈ s.fileList, ∃ pid, e.currentPath ∈ creditedFiles fs events pid
  fileCount : ∀ pid, (s.count pid).fileCount.toNat = (s.entries pid).length
  budget : ∀ pid, listedSize fs (s.entries pid) ≤ FILE_MAX_TOTAL_SIZE_SCAN.toNat

variable {fs : FileSystem} {tools : ScanTools} {events : List FileIoInfo} {S : Set WString}

/-! ### The first pass -/

/-- Every hash in `unique_paths` is that of a counted file, whose size is known. -/
def Counted (fs : FileSystem) (events : List FileIoInfo) (s : FirstPass) : Prop :=
  ∀ h ∈ s.uniquePaths, ∃ f pid, f ∈ creditedFiles fs events pid ∧ fs.hash f = h ∧
    s.fileSizeMap h = some (fs.getFileSize f)

/-- More events credit more files. -/
theorem creditedFiles_mono {io : FileIoInfo} {pid : UInt64} :
    creditedFiles fs events pid ⊆ creditedFiles fs (events ++ [io]) pid := by
  rw [creditedFiles_snoc]
  split
  · exact Finset.subset_insert _ _
  · exact Finset.Subset.refl _

/-- One event is counted with the process that it belongs to. -/
theorem Counted.step {s : FirstPass} {io : FileIoInfo} (h : Counted fs events s)
    (hinv : PassInv fs S events s) (hio : io.filePath ∈ S) :
    Counted fs (events ++ [io]) (firstPassStep fs s io) := by
  by_cases hnew : eligible fs io.filePath ∧ s.fileSizeMap (fs.hash io.filePath) = none
  · obtain ⟨heligible, hnone⟩ := hnew
    have hfirst : first FileIoInfo.filePath events io.filePath = none := by
      by_contra hne
      have hsome := (hinv.size io.filePath hio).mpr ⟨heligible, hne⟩
      rw [hnone] at hsome
      cases hsome
    rw [firstPassStep_of_new heligible hnone]
    have hold : ∀ k ∈ s.uniquePaths, ∃ f pid, f ∈ creditedFiles fs (events ++ [io]) pid ∧
        fs.hash f = k ∧ Function.update s.fileSizeMap (fs.hash io.filePath)
          (some (fs.getFileSize io.filePath)) k = some (fs.getFileSize f) := by
      intro k hk
      obtain ⟨f, pid, hf, hhash, hsize⟩ := h k hk
      refine ⟨f, pid, creditedFiles_mono hf, hhash, ?_⟩
      rw [Function.update_of_ne]
      · exact hsize
      · rintro rfl
        rw [hnone] at hsize
        cases hsize
    intro k hk
    dsimp only at hk ⊢
    by_cases hchanges : changesAs fs io.pid io = true
    · rw [if_pos hchanges, Finset.mem_insert] at hk
      rcases hk with rfl | hk
      · -- The file of this event.
        refine ⟨io.filePath, io.pid, ?_, rfl, Function.update_self ..⟩
        rw [creditedFiles_snoc, if_pos ⟨hfirst, hchanges⟩]
        exact Finset.mem_insert_self _ _
      · exact hold k hk
    · rw [if_neg hchanges] at hk
      exact hold k hk
  · have hknown : ¬ eligible fs io.filePath ∨
        (s.fileSizeMap (fs.hash io.filePath)).isSome = true := by
      by_cases heligible : eligible fs io.filePath
      · exact .inr (Option.isSome_iff_ne_none.mpr fun hn => hnew ⟨heligible, hn⟩)
      · exact .inl heligible
    rw [firstPassStep_of_known hknown]
    intro k hk
    obtain ⟨f, pid, hf, hhash, hsize⟩ := h k hk
    exact ⟨f, pid, creditedFiles_mono hf, hhash, hsize⟩

/-- The first pass counts the files of all events. -/
theorem counted_firstPass (hS : Set.InjOn fs.hash S) (events : List FileIoInfo)
    (hpaths : ∀ io ∈ events, io.filePath ∈ S) : Counted fs events (firstPass fs events) := by
  induction events using List.reverseRecOn with
  | nil =>
    intro k hk
    exact absurd hk (Finset.notMem_empty k)
  | append_singleton events io ih =>
    have hbefore : ∀ e ∈ events, e.filePath ∈ S := fun e he =>
      hpaths e (List.mem_append_left _ he)
    have hrun : firstPass fs (events ++ [io]) = firstPassStep fs (firstPass fs events) io := by
      unfold firstPass
      rw [List.foldl_append]
      rfl
    rw [hrun]
    exact (ih hbefore).step (passInv_firstPass hS events hbefore) (hpaths io (by simp))

/-! ### The invariant -/

/-- The counters of a process and its listed files. -/
structure Account (fs : FileSystem) (c : FileCount) (entries : List FileInfo) : Prop where
  fileCount : c.fileCount.toNat = entries.length
  few : entries.length ≤ listedSize fs entries
  charged : listedSize fs entries ≤ c.totalSize.toNat
  budget : c.totalSize.toNat ≤ FILE_MAX_TOTAL_SIZE_SCAN.toNat

/-- The state of the second pass. -/
structure Selecting (fs : FileSystem) (events : List FileIoInfo) (first : FirstPass)
    (whiteListPid : UInt64 → Bool) (s : SecondPass) : Prop where
  unique : s.uniquePaths ⊆ first.uniquePaths
  sizes : s.fileSizeMap = first.fileSizeMap
  erased : ∀ e ∈ s.fileList, fs.hash e.currentPath ∉ s.uniquePaths
  counted : ∀ e ∈ s.fileList, ∃ pid, e.currentPath ∈ creditedFiles fs events pid
  passed : ∀ e ∈ s.fileList, whiteListPid e.pid = false
  nodup : (s.fileList.map FileInfo.currentPath).Nodup
  paths_eq : s.paths = s.fileList.map FileInfo.tmpPath
  account : ∀ pid, Account fs (s.count pid) (s.entries pid)

/-- One more file in the list. -/
theorem listedSize_concat (entries : List FileInfo) (e : FileInfo) :
    listedSize fs (entries ++ [e]) =
      listedSize fs entries + (fs.getFileSize e.currentPath).toNat := by
  unfold listedSize
  simp

/-- A file was charged to the process. -/
theorem Account.charge {c : FileCount} {entries : List FileInfo} (h : Account fs c entries)
    {total : UInt64} (hcharged : c.totalSize.toNat ≤ total.toNat)
    (hbudget : total.toNat ≤ FILE_MAX_TOTAL_SIZE_SCAN.toNat) :
    Account fs { c with totalSize := total } entries where
  fileCount := h.fileCount
  few := h.few
  charged := h.charged.trans hcharged
  budget := hbudget

/-- A file that was charged is listed. -/
theorem Account.concat {c : FileCount} {entries : List FileInfo} (h : Account fs c entries)
    {e : FileInfo} (hsize : fs.getFileSize e.currentPath ≠ 0)
    (hcharged : listedSize fs entries + (fs.getFileSize e.currentPath).toNat ≤
      c.totalSize.toNat) :
    Account fs { c with fileCount := c.fileCount + 1 } (entries ++ [e]) := by
  have hfew := h.few
  have hbudget := h.budget
  have hlength := h.fileCount
  have hmax : FILE_MAX_TOTAL_SIZE_SCAN.toNat = 52428800 := rfl
  have hpos : 1 ≤ (fs.getFileSize e.currentPath).toNat :=
    Nat.one_le_iff_ne_zero.mpr fun hzero => hsize (UInt64.toNat_inj.mp hzero)
  constructor
  · -- Every listed file has a byte, so the number of files is within the budget, too.
    show (c.fileCount + 1).toNat = _
    rw [UInt64.toNat_add, List.length_append, ← hlength]
    exact Nat.mod_eq_of_lt (by show c.fileCount.toNat + 1 < 2 ^ 64; omega)
  · rw [listedSize_concat, List.length_append, List.length_singleton]
    omega
  · rw [listedSize_concat]
    exact hcharged
  · exact hbudget

/-- New counters for a process. -/
def SecondPass.setCount (s : SecondPass) (pid : UInt64) (c : FileCount) : SecondPass :=
  { s with pidFileCnt := Function.update s.pidFileCnt pid (some c) }

/-- A path is taken out of `unique_paths`. -/
def SecondPass.erasePath (s : SecondPass) (hash : UInt64) : SecondPass :=
  { s with uniquePaths := s.uniquePaths.erase hash }

section
variable {first : FirstPass} {whiteListPid : UInt64 → Bool} {s : SecondPass} {pid q : UInt64}
  {c : FileCount} {hash : UInt64} {filePath tmp : WString}

/-- The count of one process is set. -/
theorem count_setCount : (s.setCount pid c).count q = if q = pid then c else s.count q := by
  show (Function.update s.pidFileCnt pid (some c) q).getD {} = _
  by_cases hq : q = pid
  · subst hq
    rw [if_pos rfl, Function.update_self]
    rfl
  · rw [if_neg hq, Function.update_of_ne hq]
    rfl

/-- A new count for a process, that fits its files. -/
theorem Selecting.setCount (h : Selecting fs events first whiteListPid s)
    (hc : Account fs c (s.entries pid)) :
    Selecting fs events first whiteListPid (s.setCount pid c) :=
  { h with
    account := by
      intro q
      rw [count_setCount]
      by_cases hq : q = pid
      · subst hq
        rw [if_pos rfl]
        exact hc
      · rw [if_neg hq]
        exact h.account q }

/-- A path that is done is taken away. -/
theorem Selecting.erasePath (h : Selecting fs events first whiteListPid s) (hash : UInt64) :
    Selecting fs events first whiteListPid (s.erasePath hash) :=
  { h with
    unique := (Finset.erase_subset _ _).trans h.unique
    erased := fun e he hmem => h.erased e he (Finset.mem_of_mem_erase hmem) }

/-- A file with a temporary path is listed, and counted with its process. -/
theorem push_of_ne (htmp : tmp ≠ []) : s.push filePath tmp pid =
    { s.setCount pid { s.count pid with fileCount := (s.count pid).fileCount + 1 } with
      fileList := s.fileList ++ [⟨filePath, tmp, pid⟩]
      paths := s.paths ++ [tmp] } := if_neg htmp

/-- The files of the process have one more. -/
theorem entries_push (htmp : tmp ≠ []) : (s.push filePath tmp pid).entries q =
    if q = pid then s.entries q ++ [⟨filePath, tmp, pid⟩] else s.entries q := by
  rw [push_of_ne htmp]
  show List.filter _ (s.fileList ++ ([⟨filePath, tmp, pid⟩] : List FileInfo)) = _
  rw [List.filter_append]
  by_cases hq : q = pid
  · subst hq
    simp [SecondPass.entries]
  · simp [SecondPass.entries, hq, Ne.symm hq]

/-- The count of the process is one higher. -/
theorem count_push (htmp : tmp ≠ []) : (s.push filePath tmp pid).count q =
    if q = pid then { s.count pid with fileCount := (s.count pid).fileCount + 1 }
    else s.count q := by
  rw [push_of_ne htmp]
  exact count_setCount

/-- A file that was charged, and is not in `unique_paths` any more, is listed. -/
theorem Selecting.push (h : Selecting fs events first whiteListPid s)
    (hwhite : whiteListPid pid = false)
    (hcounted : ∃ pid, filePath ∈ creditedFiles fs events pid)
    (herased : fs.hash filePath ∉ s.uniquePaths)
    (hnew : ∀ e ∈ s.fileList, e.currentPath ≠ filePath) (hsize : fs.getFileSize filePath ≠ 0)
    (hcharged : listedSize fs (s.entries pid) + (fs.getFileSize filePath).toNat ≤
      (s.count pid).totalSize.toNat) (tmp : WString) :
    Selecting fs events first whiteListPid (s.push filePath tmp pid) := by
  by_cases htmp : tmp = []
  · -- The copy has failed.
    unfold SecondPass.push
    rw [if_pos htmp]
    exact h
  have hlist : (s.push filePath tmp pid).fileList = s.fileList ++ [⟨filePath, tmp, pid⟩] := by
    rw [push_of_ne htmp]
  have hpaths : (s.push filePath tmp pid).paths = s.paths ++ [tmp] := by
    rw [push_of_ne htmp]
  have hunique : (s.push filePath tmp pid).uniquePaths = s.uniquePaths := by
    rw [push_of_ne htmp]
    rfl
  have hsizes : (s.push filePath tmp pid).fileSizeMap = s.fileSizeMap := by
    rw [push_of_ne htmp]
    rfl
  have hmem : ∀ e ∈ (s.push filePath tmp pid).fileList,
      e ∈ s.fileList ∨ e = ⟨filePath, tmp, pid⟩ := by
    intro e he
    rw [hlist, List.mem_append, List.mem_singleton] at he
    exact he
  constructor
  · rw [hunique]
    exact h.unique
  · rw [hsizes]
    exact h.sizes
  · intro e he
    rw [hunique]
    rcases hmem e he with he | rfl
    · exact h.erased e he
    · exact herased
  · intro e he
    rcases hmem e he with he | rfl
    · exact h.counted e he
    · exact hcounted
  · intro e he
    rcases hmem e he with he | rfl
    · exact h.passed e he
    · exact hwhite
  · rw [hlist, List.map_append, List.nodup_append]
    refine ⟨h.nodup, List.nodup_singleton _, ?_⟩
    intro path hpath path' hpath' heq
    obtain ⟨e, he, rfl⟩ := List.mem_map.mp hpath
    rw [List.map_singleton, List.mem_singleton] at hpath'
    exact hnew e he (heq.trans hpath')
  · rw [hlist, hpaths, List.map_append, h.paths_eq]
    rfl
  · intro q
    rw [count_push htmp, entries_push htmp]
    by_cases hq : q = pid
    · subst hq
      rw [if_pos rfl, if_pos rfl]
      exact (h.account q).concat hsize hcharged
    · rw [if_neg hq, if_neg hq]
      exact h.account q

/-! ### The loop -/

/-- A round for a file whose size is known. -/
theorem secondPassStep_eq {io : FileIoInfo} (hmem : fs.hash io.filePath ∈ s.uniquePaths)
    (hwhite : whiteListPid io.pid = false)
    (hsize : s.fileSizeMap (fs.hash io.filePath) = some (fs.getFileSize io.filePath)) :
    secondPassStep fs tools whiteListPid s io =
      let total := (s.count io.pid).totalSize + fs.getFileSize io.filePath
      let charged := (s.setCount io.pid { s.count io.pid with totalSize := total }).erasePath
        (fs.hash io.filePath)
      if total > FILE_MAX_TOTAL_SIZE_SCAN then some (s.setCount io.pid (s.count io.pid))
      else if fs.getFileSize io.filePath = 0 then some charged
      else (tmpPath tools io.filePath (fs.getFileSize io.filePath)).map fun tmp =>
        charged.push io.filePath tmp io.pid := by
  have hmap : Function.update s.fileSizeMap (fs.hash io.filePath)
      (some (fs.getFileSize io.filePath)) = s.fileSizeMap := by
    rw [← hsize]
    exact Function.update_eq_self _ _
  unfold secondPassStep
  dsimp only
  rw [if_neg (not_not_intro hmem), if_neg (by simp [hwhite]), hsize, Option.getD_some, hmap,
    Function.update_idem]
  rfl

/-- The size of a file that can be listed is known from the first pass. -/
theorem Counted.size_eq (h : Counted fs events first) (hS : Set.InjOn fs.hash S)
    (hpaths : ∀ io ∈ events, io.filePath ∈ S) {io : FileIoInfo} (hio : io ∈ events)
    (hmem : fs.hash io.filePath ∈ first.uniquePaths) :
    first.fileSizeMap (fs.hash io.filePath) = some (fs.getFileSize io.filePath) ∧
      ∃ pid, io.filePath ∈ creditedFiles fs events pid := by
  obtain ⟨f, pid, hf, hhash, hsize⟩ := h _ hmem
  obtain ⟨e, he, -, hkey⟩ := mem_someWith_iff.mp (creditedFiles_subset hf)
  have hsame : f = io.filePath := hS (hkey ▸ hpaths e he) (hpaths io hio) hhash
  subst hsame
  exact ⟨hsize, pid, hf⟩

/-- The counter of a process does not overflow. -/
theorem toNat_charge {total size : UInt64}
    (htotal : total.toNat ≤ FILE_MAX_TOTAL_SIZE_SCAN.toNat) (hsize : size.toNat < 2 ^ 62)
    (hfits : ¬ total + size > FILE_MAX_TOTAL_SIZE_SCAN) :
    (total + size).toNat = total.toNat + size.toNat ∧
      total.toNat + size.toNat ≤ FILE_MAX_TOTAL_SIZE_SCAN.toNat := by
  have hmax : FILE_MAX_TOTAL_SIZE_SCAN.toNat = 52428800 := rfl
  have hsum : (total + size).toNat = total.toNat + size.toNat := by
    rw [UInt64.toNat_add, Nat.mod_eq_of_lt (by omega)]
  have hle : total + size ≤ FILE_MAX_TOTAL_SIZE_SCAN := UInt64.not_lt.mp hfits
  rw [UInt64.le_iff_toNat_le, hsum] at hle
  exact ⟨hsum, hle⟩

/-- One event of the second pass keeps the selection. -/
theorem Selecting.step (h : Selecting fs events first whiteListPid s)
    (hcounted : Counted fs events first)
    (hS : Set.InjOn fs.hash S) (hpaths : ∀ io ∈ events, io.filePath ∈ S) {io : FileIoInfo}
    (hio : io ∈ events) (hbytes : (fs.getFileSize io.filePath).toNat < 2 ^ 62) {s' : SecondPass}
    (hstep : secondPassStep fs tools whiteListPid s io = some s') :
    Selecting fs events first whiteListPid s' := by
  by_cases hskip : fs.hash io.filePath ∉ s.uniquePaths
  · have hsame : some s = some s' := (if_pos hskip).symm.trans hstep
    exact Option.some.inj hsame ▸ h
  by_cases hwhite : whiteListPid io.pid = true
  · have hsame : some s = some s' := ((if_neg hskip).trans (if_pos hwhite)).symm.trans hstep
    exact Option.some.inj hsame ▸ h
  have hmem : fs.hash io.filePath ∈ s.uniquePaths := not_not.mp hskip
  have hfirst := h.unique hmem
  have hpassed : whiteListPid io.pid = false := Bool.not_eq_true _ ▸ hwhite
  obtain ⟨hsize, hcredited⟩ := hcounted.size_eq hS hpaths hio hfirst
  rw [← h.sizes] at hsize
  rw [secondPassStep_eq hmem hpassed hsize] at hstep
  dsimp only at hstep
  by_cases hfull : (s.count io.pid).totalSize + fs.getFileSize io.filePath >
      FILE_MAX_TOTAL_SIZE_SCAN
  · -- The budget of the process is used up.
    rw [if_pos hfull] at hstep
    cases hstep
    exact h.setCount (h.account io.pid)
  rw [if_neg hfull] at hstep
  obtain ⟨hsum, hle⟩ := toNat_charge (h.account io.pid).budget hbytes hfull
  have hcharged : Selecting fs events first whiteListPid ((s.setCount io.pid
      { s.count io.pid with
        totalSize := (s.count io.pid).totalSize + fs.getFileSize io.filePath }).erasePath
      (fs.hash io.filePath)) := by
    apply Selecting.erasePath
    apply h.setCount
    apply (h.account io.pid).charge
    · rw [hsum]
      exact Nat.le_add_right _ _
    · rw [hsum]
      exact hle
  by_cases hzero : fs.getFileSize io.filePath = 0
  · rw [if_pos hzero] at hstep
    cases hstep
    exact hcharged
  rw [if_neg hzero] at hstep
  obtain ⟨tmp, -, rfl⟩ := Option.map_eq_some_iff.mp hstep
  refine hcharged.push hpassed hcredited (Finset.notMem_erase _ _) ?_ hzero ?_ tmp
  · -- A listed path has a hash that was taken out.
    intro e he heq
    exact h.erased e he (heq ▸ hmem)
  · show _ ≤ ((s.setCount io.pid _).count io.pid).totalSize.toNat
    rw [count_setCount, if_pos rfl]
    show _ ≤ ((s.count io.pid).totalSize + fs.getFileSize io.filePath).toNat
    rw [hsum]
    exact Nat.add_le_add_right (h.account io.pid).charged _

/-- The induction is on the events that are left. -/
theorem Selecting.foldlM (hcounted : Counted fs events first) (hS : Set.InjOn fs.hash S)
    (hpaths : ∀ io ∈ events, io.filePath ∈ S)
    (hbytes : ∀ io ∈ events, (fs.getFileSize io.filePath).toNat < 2 ^ 62) {rest : List FileIoInfo}
    (hrest : ∀ io ∈ rest, io ∈ events) (h : Selecting fs events first whiteListPid s)
    {s' : SecondPass}
    (hrun : rest.foldlM (secondPassStep fs tools whiteListPid) s = some s') :
    Selecting fs events first whiteListPid s' := by
  induction rest generalizing s with
  | nil =>
    cases hrun
    exact h
  | cons io rest ih =>
    rw [List.foldlM_cons] at hrun
    obtain ⟨next, hnext, hrun⟩ := Option.bind_eq_some_iff.mp hrun
    obtain ⟨hio, hrest⟩ := List.forall_mem_cons.mp hrest
    exact ih hrest (h.step hcounted hS hpaths hio (hbytes io hio) hnext) hrun

/-- After the choice of the processes nothing is listed, and nothing is charged. -/
theorem selecting_gate (first : FirstPass) (whiteListPid : UInt64 → Bool) :
    Selecting fs events first whiteListPid first.gate := by
  have hcount : ∀ pid,
      (first.gate.count pid).fileCount = 0 ∧ (first.gate.count pid).totalSize = 0 := by
    intro pid
    show (((first.pidFileCnt pid).map FileCount.reset).getD {}).fileCount = 0 ∧
      (((first.pidFileCnt pid).map FileCount.reset).getD {}).totalSize = 0
    cases first.pidFileCnt pid with
    | none => exact ⟨rfl, rfl⟩
    | some c => exact ⟨rfl, rfl⟩
  constructor
  · exact Finset.Subset.refl _
  · rfl
  · intro e he
    cases he
  · intro e he
    cases he
  · intro e he
    cases he
  · exact List.nodup_nil
  · rfl
  · intro pid
    obtain ⟨hcnt, hsize⟩ := hcount pid
    constructor
    · rw [hcnt]
      rfl
    · exact Nat.le_refl 0
    · exact Nat.zero_le _
    · rw [hsize]
      exact Nat.zero_le _

end

/-- What the second pass selects, when it ends. -/
theorem scanSelection (tools : ScanTools)
    (hS : Set.InjOn fs.hash {path | ∃ io ∈ events, io.filePath = path})
    (hbytes : ∀ io ∈ events, (fs.getFileSize io.filePath).toNat < 2 ^ 62) {s : SecondPass}
    (hs : secondPass fs tools events = some s) : ScanSelection fs events s := by
  have hpaths : ∀ io ∈ events, io.filePath ∈ {path | ∃ io ∈ events, io.filePath = path} :=
    fun io hio => ⟨io, hio, rfl⟩
  have hcounted := counted_firstPass hS events hpaths
  have hinv := Selecting.foldlM hcounted hS hpaths hbytes (fun _ h => h)
    (selecting_gate _ _) hs
  constructor
  · exact hinv.nodup
  · exact hinv.paths_eq
  · exact hinv.passed
  · exact hinv.counted
  · exact fun pid => (hinv.account pid).fileCount
  · exact fun pid => (hinv.account pid).charged.trans (hinv.account pid).budget

/-- Files of one kilobyte in directories of one letter. -/
def smallFiles : FileSystem where
  fileExist _ := true
  isExecutableFile _ := false
  getFileSize _ := 1024
  parentPath path := path.take 1
  hash path := path.foldl (fun h c => h * 65536 + c.toUInt64) 0

/-- Paths of ASCII characters are not copied. -/
def asciiTools : ScanTools where
  types := .asciiOnly
  wstrToStr path := some (path.map UInt16.toUInt8)
  copyToTmp _ _ := []

/-- Process 7 writes ten files in two directories. -/
def tenWrites : List FileIoInfo :=
  (List.range 10).map fun i => ⟨WRITE_FLAG, [UInt16.ofNat (97 + i % 2), UInt16.ofNat (48 + i)], 7⟩

/-- Ten small files in two directories are all selected. -/
theorem scanSelection_tenWrites : ∃ s, secondPass smallFiles asciiTools tenWrites = some s ∧
    s.fileList.length = 10 ∧ ScanSelection smallFiles tenWrites s := by
  have hrun : ((secondPass smallFiles asciiTools tenWrites).map fun s => s.fileList.length) =
      some 10 := by decide +kernel
  obtain ⟨s, hs, hlen⟩ := Option.map_eq_some_iff.mp hrun
  refine ⟨s, hs, hlen, scanSelection asciiTools ?_ (by decide) hs⟩
  rintro _ ⟨io, hio, rfl⟩ _ ⟨io', hio', rfl⟩
  revert io io'
  decide +kernel

end KernelEventsTrace.EtwService.Manager
