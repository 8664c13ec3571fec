import KernelEventsTrace.EtwService.Manager.ThirdPass

/-!
# `KernelEventsTrace.Proofs.Manager.Tally`: how many files of a process are recognized

`expectedTally` counts the listed files of a process by the verdicts that `trid_map` has before the
third pass. The pass agrees with it on a process if and only if none of its text files without a
verdict is printable, and none of its other files repeats the path of such a text file.

* A text file without a verdict is never recognized. The result of `IsPrintableFile` is overwritten
  by `trid_map[tmp_path_hash]`, and the operator `[]` inserts `false`.
* From then on this path has a verdict. A later file with the same `tmp_path` is counted even if it
  is no text file.

`thirdPassStep_eq` is a round as one equation, and `tridMap_thirdPass` is the map after any files.
-/

set_option autoImplicit false

namespace KernelEventsTrace.EtwService.Manager

/-! ### Specification -/

section
variable (fs : FileSystem) (locale : Locale) (isPrintableFile : WString → Bool) (tridMap : TridMap)

/-- The verdict of TrID about a listed file. -/
def verdict (e : FileInfo) : Option Bool := tridMap (fs.hash e.tmpPath)

/-- A listed text file that still exists and has no verdict. -/
def TextWithoutVerdict (e : FileInfo) : Prop :=
  fs.fileExist e.currentPath = true ∧ verdict fs tridMap e = none ∧
    isTxt locale e.currentPath = true

/-- A listed file that still exists and has a verdict or is a text file. -/
def IsCounted (e : FileInfo) : Prop :=
  fs.fileExist e.currentPath = true ∧
    (verdict fs tridMap e ≠ none ∨ isTxt locale e.currentPath = true)

/-- A listed file that still exists and has the verdict `true`, or is a printable text file without
a verdict. -/
def IsRecognized (e : FileInfo) : Prop :=
  fs.fileExist e.currentPath = true ∧
    (verdict fs tridMap e = some true ∨
      verdict fs tridMap e = none ∧ isTxt locale e.currentPath = true ∧
        isPrintableFile e.currentPath = true)

/-- Whether a file is counted. -/
instance (e : FileInfo) : Decidable (IsCounted fs locale tridMap e) :=
  inferInstanceAs (Decidable (_ ∧ _))

/-- Whether a file is recognized. -/
instance (e : FileInfo) : Decidable (IsRecognized fs locale isPrintableFile tridMap e) :=
  inferInstanceAs (Decidable (_ ∧ _))

/-- Whether a file is a text without a verdict. -/
instance (e : FileInfo) : Decidable (TextWithoutVerdict fs locale tridMap e) :=
  inferInstanceAs (Decidable (_ ∧ _))

/-- `(recognized, total)` of a process by the verdicts before the pass. -/
def expectedTally (fileList : List FileInfo) (pid : UInt64) : Nat × Nat :=
  (fileList.countP fun e => e.pid = pid ∧ IsRecognized fs locale isPrintableFile tridMap e,
    fileList.countP fun e => e.pid = pid ∧ IsCounted fs locale tridMap e)

/-- The path with this hash is that of a text file without a verdict. -/
def TextPath (files : List FileInfo) (h : UInt64) : Prop :=
  ∃ text ∈ files, TextWithoutVerdict fs locale tridMap text ∧ fs.hash text.tmpPath = h

/-- A listed file without a verdict that is no text file, but has the path of a text file without a
verdict among the files before it. -/
def RepeatsPath (before : List FileInfo) (e : FileInfo) : Prop :=
  fs.fileExist e.currentPath = true ∧ verdict fs tridMap e = none ∧
    isTxt locale e.currentPath = false ∧ TextPath fs locale tridMap before (fs.hash e.tmpPath)

/-- A printable text file without a verdict. -/
def PrintableText (e : FileInfo) : Prop :=
  TextWithoutVerdict fs locale tridMap e ∧ isPrintableFile e.currentPath = true

/-- Whether a file is a printable text. -/
instance (e : FileInfo) : Decidable (PrintableText fs locale isPrintableFile tridMap e) :=
  inferInstanceAs (Decidable (_ ∧ _))

/-- No text file of the process without a verdict is printable. -/
def NoPrintableText (fileList : List FileInfo) (pid : UInt64) : Prop :=
  ∀ e ∈ fileList, e.pid = pid → ¬ PrintableText fs locale isPrintableFile tridMap e

/-- No file of the process repeats the path of a text file without a verdict. -/
def NoRepeats (fileList : List FileInfo) (pid : UInt64) : Prop :=
  ∀ before e, before ++ [e] <+: fileList → e.pid = pid → ¬ RepeatsPath fs locale tridMap before e

end

variable {fs : FileSystem} {locale : Locale} {isPrintableFile : WString → Bool}
variable {tridMap : TridMap} {fileList : List FileInfo} {e : FileInfo} {pid : UInt64}

/-! ### The map of the verdicts -/

/-- A round. What `IsPrintableFile` returns does not occur in it. -/
theorem thirdPassStep_eq (s : ThirdPass) (e : FileInfo) :
    thirdPassStep fs locale isPrintableFile s e =
      if fs.fileExist e.currentPath = true ∧
          (s.tridMap (fs.hash e.tmpPath) ≠ none ∨ isTxt locale e.currentPath = true) then
        let isRecognized := (s.tridMap (fs.hash e.tmpPath)).getD false
        let stats := (s.procCheckResults e.pid).getD (0, 0)
        { tridMap := Function.update s.tridMap (fs.hash e.tmpPath) (some isRecognized)
          procCheckResults := Function.update s.procCheckResults e.pid
            (some (stats.1 + isRecognized.toNat, stats.2 + 1)) }
      else s := by
  cases hexist : fs.fileExist e.currentPath with
  | false => simp [thirdPassStep, hexist]
  | true =>
    cases hverdict : s.tridMap (fs.hash e.tmpPath) with
    | some b => simp [thirdPassStep, hexist, hverdict]
    | none =>
      cases htxt : isTxt locale e.currentPath with
      | false => simp [thirdPassStep, checkManually, hexist, hverdict, htxt]
      | true => simp [thirdPassStep, checkManually, hexist, hverdict, htxt]

/-- The verdicts after some files: those from before, and `false` for the paths of the text files
without a verdict. -/
structure Verdicts (fs : FileSystem) (locale : Locale) (tridMap : TridMap)
    (files : List FileInfo) (m : TridMap) : Prop where
  kept : ∀ h b, tridMap h = some b → m h = some b
  inserted : ∀ h, TextPath fs locale tridMap files h → m h = some false
  absent : ∀ h, tridMap h = none → ¬ TextPath fs locale tridMap files h → m h = none

/-- The paths of the texts without a verdict, with one more file. -/
theorem textPath_snoc {h : UInt64} : TextPath fs locale tridMap (fileList ++ [e]) h ↔
    TextPath fs locale tridMap fileList h ∨
      TextWithoutVerdict fs locale tridMap e ∧ fs.hash e.tmpPath = h := by
  constructor
  · rintro ⟨text, hmem, htext⟩
    rcases List.mem_append.mp hmem with hmem | hmem
    · exact .inl ⟨text, hmem, htext⟩
    · rw [List.mem_singleton] at hmem
      subst hmem
      exact .inr htext
  · rintro (⟨text, hmem, htext⟩ | htext)
    · exact ⟨text, List.mem_append_left _ hmem, htext⟩
    · exact ⟨e, List.mem_append_right _ (List.mem_singleton_self e), htext⟩

/-- The path of a text without a verdict has none. -/
theorem TextPath.verdict_eq {h : UInt64} (htext : TextPath fs locale tridMap fileList h) :
    tridMap h = none := by
  obtain ⟨text, -, ⟨-, hnone, -⟩, rfl⟩ := htext
  exact hnone

/-- A file that is counted puts its verdict into the map, or `false`. -/
theorem Verdicts.counted {m : TridMap} (hm : Verdicts fs locale tridMap fileList m)
    (hexist : fs.fileExist e.currentPath = true)
    (hcounted : m (fs.hash e.tmpPath) ≠ none ∨ isTxt locale e.currentPath = true) :
    Verdicts fs locale tridMap (fileList ++ [e])
      (Function.update m (fs.hash e.tmpPath) (some ((m (fs.hash e.tmpPath)).getD false))) := by
  constructor
  · intro h b hb
    by_cases hh : h = fs.hash e.tmpPath
    · subst hh
      rw [Function.update_self, hm.kept _ b hb]
      rfl
    · rw [Function.update_of_ne hh]
      exact hm.kept h b hb
  · intro h htext
    by_cases hh : h = fs.hash e.tmpPath
    · subst hh
      -- There was no verdict before the pass, so what the map has now is `false` or nothing.
      have hfalse : (m (fs.hash e.tmpPath)).getD false = false := by
        by_cases hbefore : TextPath fs locale tridMap fileList (fs.hash e.tmpPath)
        · rw [hm.inserted _ hbefore]
          rfl
        · rw [hm.absent _ htext.verdict_eq hbefore]
          rfl
      rw [Function.update_self, hfalse]
    · rw [Function.update_of_ne hh]
      rcases textPath_snoc.mp htext with hbefore | ⟨-, hhash⟩
      · exact hm.inserted h hbefore
      · exact absurd hhash.symm hh
  · intro h hnone htext
    have hbefore : ¬ TextPath fs locale tridMap fileList h := fun hb =>
      htext (textPath_snoc.mpr (.inl hb))
    by_cases hh : h = fs.hash e.tmpPath
    · subst hh
      have habsent := hm.absent _ hnone hbefore
      -- Then the file is a text file without a verdict itself.
      have htxt := hcounted.resolve_left (fun hne => hne habsent)
      exact absurd (textPath_snoc.mpr (.inr ⟨⟨hexist, hnone, htxt⟩, rfl⟩)) htext
    · rw [Function.update_of_ne hh]
      exact hm.absent h hnone hbefore

/-- A file that is not counted is no text file without a verdict. -/
theorem Verdicts.skipped {m : TridMap} (hm : Verdicts fs locale tridMap fileList m)
    (hskip : ¬ (fs.fileExist e.currentPath = true ∧
      (m (fs.hash e.tmpPath) ≠ none ∨ isTxt locale e.currentPath = true))) :
    Verdicts fs locale tridMap (fileList ++ [e]) m := by
  have htext : ∀ h, TextPath fs locale tridMap (fileList ++ [e]) h ↔
      TextPath fs locale tridMap fileList h := by
    intro h
    rw [textPath_snoc]
    constructor
    · rintro (hbefore | ⟨⟨hexist, -, htxt⟩, -⟩)
      · exact hbefore
      · exact absurd ⟨hexist, .inr htxt⟩ hskip
    · exact .inl
  constructor
  · exact hm.kept
  · exact fun h ht => hm.inserted h ((htext h).mp ht)
  · exact fun h hnone ht => hm.absent h hnone fun hb => ht ((htext h).mpr hb)

/-! ### The counters -/

/-- A round after the files before it. -/
theorem thirdPass_snoc : thirdPass fs locale isPrintableFile tridMap (fileList ++ [e]) =
    thirdPassStep fs locale isPrintableFile
      (thirdPass fs locale isPrintableFile tridMap fileList) e := by
  simp only [thirdPass, List.foldl_append, List.foldl_cons, List.foldl_nil]

/-- The third pass fills in verdicts for the texts. -/
theorem verdicts_thirdPass (fileList : List FileInfo) : Verdicts fs locale tridMap fileList
    (thirdPass fs locale isPrintableFile tridMap fileList).tridMap := by
  induction fileList using List.reverseRecOn with
  | nil =>
    constructor
    · exact fun h b hb => hb
    · rintro h ⟨text, hmem, -⟩
      cases hmem
    · exact fun h hnone _ => hnone
  | append_singleton fileList e ih =>
    rw [thirdPass_snoc, thirdPassStep_eq]
    split
    · next hcounted => exact ih.counted hcounted.1 hcounted.2
    · next hskip => exact ih.skipped hskip

/-- The files that are counted. -/
theorem Verdicts.counted_iff {m : TridMap} (hm : Verdicts fs locale tridMap fileList m) :
    (fs.fileExist e.currentPath = true ∧
        (m (fs.hash e.tmpPath) ≠ none ∨ isTxt locale e.currentPath = true)) ↔
      IsCounted fs locale tridMap e ∨ RepeatsPath fs locale tridMap fileList e := by
  constructor
  · rintro ⟨hexist, hcounted⟩
    cases hverdict : verdict fs tridMap e with
    | some b => exact .inl ⟨hexist, .inl (by rw [hverdict]; exact Option.some_ne_none b)⟩
    | none =>
      cases htxt : isTxt locale e.currentPath with
      | true => exact .inl ⟨hexist, .inr htxt⟩
      | false =>
        refine .inr ⟨hexist, hverdict, htxt, ?_⟩
        by_contra hbefore
        have habsent := hm.absent _ hverdict hbefore
        rcases hcounted with hne | ht
        · exact hne habsent
        · rw [htxt] at ht
          cases ht
  · rintro (⟨hexist, hne | htxt⟩ | ⟨hexist, -, -, htext⟩)
    · obtain ⟨b, hb⟩ := Option.ne_none_iff_exists'.mp hne
      have hkept := hm.kept _ b hb
      exact ⟨hexist, .inl (by rw [hkept]; exact Option.some_ne_none b)⟩
    · exact ⟨hexist, .inr htxt⟩
    · have hinserted := hm.inserted _ htext
      exact ⟨hexist, .inl (by rw [hinserted]; exact Option.some_ne_none false)⟩

/-- A counted file is recognized if it has the verdict `true`, and not otherwise. -/
theorem Verdicts.getD_eq {m : TridMap} (hm : Verdicts fs locale tridMap fileList m) :
    (m (fs.hash e.tmpPath)).getD false = (verdict fs tridMap e).getD false := by
  cases hverdict : verdict fs tridMap e with
  | some b =>
    rw [hm.kept _ b hverdict]
  | none =>
    by_cases htext : TextPath fs locale tridMap fileList (fs.hash e.tmpPath)
    · rw [hm.inserted _ htext]
      rfl
    · rw [hm.absent _ hverdict htext]

section
variable (isPrintableFile)

/-- A counted file of the process. -/
theorem tally_snoc_counted (hpid : e.pid = pid)
    (hcounted : IsCounted fs locale tridMap e ∨ RepeatsPath fs locale tridMap fileList e) :
    tally fs locale isPrintableFile tridMap (fileList ++ [e]) pid =
      ((tally fs locale isPrintableFile tridMap fileList pid).1 +
          ((verdict fs tridMap e).getD false).toNat,
        (tally fs locale isPrintableFile tridMap fileList pid).2 + 1) := by
  subst hpid
  have hm : Verdicts fs locale tridMap fileList
    (thirdPass fs locale isPrintableFile tridMap fileList).tridMap := verdicts_thirdPass fileList
  have hguard := hm.counted_iff.mpr hcounted
  rw [tally, thirdPass_snoc, thirdPassStep_eq, if_pos hguard]
  dsimp only
  rw [Function.update_self, Option.getD_some, hm.getD_eq]
  rfl

/-- A file of another process, or one that is not counted. -/
theorem tally_snoc_skipped (hskip : e.pid = pid →
      ¬ (IsCounted fs locale tridMap e ∨ RepeatsPath fs locale tridMap fileList e)) :
    tally fs locale isPrintableFile tridMap (fileList ++ [e]) pid =
      tally fs locale isPrintableFile tridMap fileList pid := by
  have hm : Verdicts fs locale tridMap fileList
    (thirdPass fs locale isPrintableFile tridMap fileList).tridMap := verdicts_thirdPass fileList
  rw [tally, thirdPass_snoc, thirdPassStep_eq]
  split
  · next hguard =>
    have hpid : pid ≠ e.pid := fun h => hskip h.symm (hm.counted_iff.mp hguard)
    dsimp only
    rw [Function.update_of_ne hpid]
    rfl
  · rfl

end

/-- No path is repeated, with one more file. -/
theorem noRepeats_snoc : NoRepeats fs locale tridMap (fileList ++ [e]) pid ↔
    NoRepeats fs locale tridMap fileList pid ∧
      (e.pid = pid → ¬ RepeatsPath fs locale tridMap fileList e) := by
  constructor
  · intro h
    constructor
    · exact fun before e' hpre => h before e' (hpre.trans (List.prefix_append _ _))
    · exact h fileList e (List.prefix_refl _)
  · rintro ⟨hbefore, hlast⟩ before e' hpre
    rcases List.prefix_concat_iff.mp hpre with heq | hpre
    · obtain ⟨rfl, hlasts⟩ := List.append_inj' heq rfl
      cases hlasts
      exact hlast
    · exact hbefore before e' hpre

/-- A file that repeats a path does not count. -/
theorem RepeatsPath.not_isCounted (h : RepeatsPath fs locale tridMap fileList e) :
    ¬ IsCounted fs locale tridMap e := by
  obtain ⟨-, hnone, htxt, -⟩ := h
  rintro ⟨-, hne | ht⟩
  · exact hne hnone
  · rw [htxt] at ht
    cases ht

/-- The total is never too small, and it is right if no file repeats a path. -/
theorem total_iff (fileList : List FileInfo) :
    (expectedTally fs locale isPrintableFile tridMap fileList pid).2 ≤
        (tally fs locale isPrintableFile tridMap fileList pid).2 ∧
      ((tally fs locale isPrintableFile tridMap fileList pid).2 =
          (expectedTally fs locale isPrintableFile tridMap fileList pid).2 ↔
        NoRepeats fs locale tridMap fileList pid) := by
  induction fileList using List.reverseRecOn with
  | nil =>
    constructor
    · exact Nat.le_refl 0
    · refine iff_of_true rfl ?_
      intro before e hpre
      exact absurd (List.prefix_nil.mp hpre) (List.append_ne_nil_of_right_ne_nil _ (by simp))
  | append_singleton fileList e ih =>
    obtain ⟨hle, hiff⟩ := ih
    rw [noRepeats_snoc, ← hiff]
    have hexpected : (expectedTally fs locale isPrintableFile tridMap (fileList ++ [e]) pid).2 =
        (expectedTally fs locale isPrintableFile tridMap fileList pid).2 +
          if e.pid = pid ∧ IsCounted fs locale tridMap e then 1 else 0 := by
      simp [expectedTally, List.countP_append, List.countP_singleton]
    rw [hexpected]
    by_cases hpid : e.pid = pid
    · by_cases hcounts : IsCounted fs locale tridMap e
      · -- Counted by both.
        have hnot : ¬ RepeatsPath fs locale tridMap fileList e := fun h => h.not_isCounted hcounts
        rw [tally_snoc_counted isPrintableFile hpid (.inl hcounts), if_pos ⟨hpid, hcounts⟩]
        simp only [hnot, not_false_eq_true, implies_true, and_true]
        omega
      · rw [if_neg fun h => hcounts h.2]
        by_cases hrepeats : RepeatsPath fs locale tridMap fileList e
        · -- Counted by the pass only. From here on its total is too large.
          rw [tally_snoc_counted isPrintableFile hpid (.inr hrepeats)]
          simp only [hpid, hrepeats, not_true_eq_false, imp_false, and_false, iff_false]
          omega
        · rw [tally_snoc_skipped isPrintableFile fun _ h => h.elim hcounts hrepeats]
          simp only [hrepeats, not_false_eq_true, implies_true, and_true]
          omega
    · rw [tally_snoc_skipped isPrintableFile fun h => absurd h hpid, if_neg fun h => hpid h.1]
      simp only [hpid, false_implies, and_true]
      omega

/-- A file is recognized by its verdict, or it is a printable text file without one. -/
theorem isRecognized_add (e : FileInfo) :
    (if IsRecognized fs locale isPrintableFile tridMap e then 1 else 0) =
      (if IsCounted fs locale tridMap e then ((verdict fs tridMap e).getD false).toNat else 0) +
        if PrintableText fs locale isPrintableFile tridMap e then 1 else 0 := by
  cases hexist : fs.fileExist e.currentPath with
  | false => simp [IsRecognized, IsCounted, PrintableText, TextWithoutVerdict, hexist]
  | true =>
    cases hverdict : verdict fs tridMap e with
    | some b =>
      cases b <;>
        simp [IsRecognized, IsCounted, PrintableText, TextWithoutVerdict, hexist, hverdict]
    | none => simp [IsRecognized, PrintableText, TextWithoutVerdict, hexist, hverdict]

/-- The printable text files without a verdict are missed, and no others. -/
theorem recognized_add_missed (fileList : List FileInfo) :
    (tally fs locale isPrintableFile tridMap fileList pid).1 +
        fileList.countP (fun e => e.pid = pid ∧
          PrintableText fs locale isPrintableFile tridMap e) =
      (expectedTally fs locale isPrintableFile tridMap fileList pid).1 := by
  induction fileList using List.reverseRecOn with
  | nil => rfl
  | append_singleton fileList e ih =>
    have hexpected : (expectedTally fs locale isPrintableFile tridMap (fileList ++ [e]) pid).1 =
        (expectedTally fs locale isPrintableFile tridMap fileList pid).1 +
          if e.pid = pid ∧ IsRecognized fs locale isPrintableFile tridMap e then 1 else 0 := by
      simp [expectedTally, List.countP_append, List.countP_singleton]
    have hadd : (if IsRecognized fs locale isPrintableFile tridMap e then 1 else 0) =
        (if IsCounted fs locale tridMap e then ((verdict fs tridMap e).getD false).toNat else 0) +
          if PrintableText fs locale isPrintableFile tridMap e then 1 else 0 := isRecognized_add e
    rw [hexpected, ← ih, List.countP_append, List.countP_singleton]
    by_cases hpid : e.pid = pid
    · simp only [hpid, true_and, decide_eq_true_eq]
      by_cases hcounts : IsCounted fs locale tridMap e
      · rw [if_pos hcounts] at hadd
        rw [tally_snoc_counted isPrintableFile hpid (.inl hcounts), hadd]
        dsimp only
        omega
      · rw [if_neg hcounts] at hadd
        by_cases hrepeats : RepeatsPath fs locale tridMap fileList e
        · -- It has no verdict, so it is counted but not recognized.
          have hnone : (verdict fs tridMap e).getD false = false := by rw [hrepeats.2.1]; rfl
          rw [tally_snoc_counted isPrintableFile hpid (.inr hrepeats), hnone, hadd]
          simp only [Bool.toNat_false]
          omega
        · rw [tally_snoc_skipped isPrintableFile fun _ h => h.elim hcounts hrepeats, hadd]
          omega
    · rw [tally_snoc_skipped isPrintableFile fun h => absurd h hpid]
      simp only [hpid, false_and, decide_false, Bool.false_eq_true, if_false]
      omega

/-- The recognized files are right if no text file without a verdict is printable. -/
theorem recognized_iff (fileList : List FileInfo) :
    (tally fs locale isPrintableFile tridMap fileList pid).1 =
        (expectedTally fs locale isPrintableFile tridMap fileList pid).1 ↔
      NoPrintableText fs locale isPrintableFile tridMap fileList pid := by
  rw [← recognized_add_missed fileList, Nat.left_eq_add, List.countP_eq_zero]
  constructor
  · intro h e he hpid hprintable
    exact h e he (decide_eq_true ⟨hpid, hprintable⟩)
  · intro h e he hmissed
    obtain ⟨hpid, hprintable⟩ := of_decide_eq_true hmissed
    exact h e he hpid hprintable

/-! ### The result -/

/-- The pair of a process after the third pass. -/
theorem tally_iff (fs : FileSystem) (locale : Locale) (isPrintableFile : WString → Bool)
    (tridMap : TridMap) (fileList : List FileInfo) (pid : UInt64) :
    tally fs locale isPrintableFile tridMap fileList pid =
        expectedTally fs locale isPrintableFile tridMap fileList pid ↔
      NoPrintableText fs locale isPrintableFile tridMap fileList pid ∧
        NoRepeats fs locale tridMap fileList pid := by
  rw [Prod.ext_iff, recognized_iff, (total_iff fileList).2]

/-- All files exist. -/
def textFiles : FileSystem where
  fileExist _ := true
  isExecutableFile _ := false
  getFileSize _ := 1
  parentPath _ := []
  hash path := path.foldl (fun h c => h * 256 + c.toUInt64) 0

/-- A printable text file that TrID has not reported. -/
theorem not_tally_printableText :
    tally textFiles .asciiOnly (fun _ => true) (fun _ => none)
        [⟨wide "a.txt", wide "a.txt", 7⟩] 7 ≠
      expectedTally textFiles .asciiOnly (fun _ => true) (fun _ => none)
        [⟨wide "a.txt", wide "a.txt", 7⟩] 7 := by
  decide +kernel

end KernelEventsTrace.EtwService.Manager
