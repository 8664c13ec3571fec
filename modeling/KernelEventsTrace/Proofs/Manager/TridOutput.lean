import KernelEventsTrace.EtwService.Manager.Trid
import Mathlib.Data.List.Basic

/-!
# `KernelEventsTrace.Proofs.Manager.TridOutput`: the output of TrID, and what is read from it

An output has five header lines and then the reports of files, with other lines between them
(`TridText`). The lines end with LF or CRLF. Blank lines at the end, and the last newline, can be
missing.

The parser works on lines. Its state between two reports has no current file, and then a blank line
changes nothing. `SameEnd` relates lists of lines that differ in the blank lines at the end.

`analyzeTridOutput_text`: `AnalyzeTridOutput` returns the verdicts of the reports, in order, after
the newlines were added.
-/

set_option autoImplicit false

namespace KernelEventsTrace.EtwService

namespace WString

/-! ### Lines -/

/-- The first line is cut off at its delimiter. -/
theorem getlines_line {delim : UInt16} {line : WString} (h : delim ∉ line) (s : WString) :
    getlines delim (line ++ delim :: s) = line :: getlines delim s := by
  induction line with
  | nil =>
    show (if delim = delim then _ else _) = _
    rw [if_pos rfl]
  | cons c line ih =>
    obtain ⟨hc, hline⟩ := not_or.mp (fun hor => h (List.mem_cons.mpr hor))
    rw [List.cons_append, getlines, if_neg (Ne.symm hc), ih hline]

/-- The lines of a text that ends with a newline. -/
theorem getlines_flatMap {delim : UInt16} {lines : List WString} (h : ∀ l ∈ lines, delim ∉ l) :
    getlines delim (lines.flatMap fun l => l ++ [delim]) = lines := by
  induction lines with
  | nil => rfl
  | cons line lines ih =>
    obtain ⟨hline, hlines⟩ := List.forall_mem_cons.mp h
    rw [List.flatMap_cons, List.append_assoc, List.singleton_append, getlines_line hline,
      ih hlines]

/-! ### Substrings -/

/-- A text is found at the beginning. -/
theorem find_zero {s sub : WString} (h : sub <+: s) : s.find sub = some 0 := by
  unfold find
  rw [List.range_succ_eq_map, List.find?_cons_of_pos]
  simpa using h

/-- A substring that is not in front, but starts with the second character. -/
theorem find_one {s sub : WString} {c : UInt16} (h0 : ¬ sub <+: c :: s) (h : sub <+: s) :
    WString.find (c :: s) sub = some 1 := by
  unfold find
  rw [List.range_succ_eq_map, List.find?_cons_of_neg (by simpa using h0), List.length_cons,
    List.range_succ_eq_map, List.map_cons, List.find?_cons_of_pos]
  simpa using h

end WString

namespace Manager

/-! ### Reports -/

/-- What TrID prints about a file: a line with its name, and lines with the types that it can
have. -/
structure Report where
  name : WString
  body : List WString
  deriving Repr, DecidableEq

/-- A line without newlines in it. -/
def Plain (line : WString) : Prop := newline ∉ line ∧ carriageReturn ∉ line

variable (locale : Locale) (isPrintableFile : WString → Bool)

/-- The line does not contain `file: `, in upper or lower case. -/
def NoFile (line : WString) : Prop :=
  (Ulti.toLower locale line).contains (wide "file: ") = false

/-- The name is not empty. The lines are neither empty nor name a file. -/
structure Report.WellFormed (r : Report) : Prop where
  name_ne : r.name ≠ []
  name_plain : Plain r.name
  body : ∀ line ∈ r.body, line ≠ [] ∧ Plain line ∧ NoFile locale line

/-- A report ends with a blank line. -/
def Report.lines (r : Report) : List WString := (wide "File: " ++ r.name) :: r.body ++ [[]]

/-- The extensions that a report lists. -/
def Report.extensions (r : Report) : List WString :=
  r.body.flatMap fun line => lineExtensions (Ulti.toLower locale line)

/-- The verdict about the file: its extension is listed, or it is printable. -/
def Report.verdict (r : Report) : Bool :=
  (r.extensions locale).any (fun ext => ext = getFileExtension locale (Ulti.toLower locale r.name))
    || isPrintableFile (Ulti.toLower locale r.name)

/-- The result for a report. -/
def Report.result (r : Report) : WString × Bool :=
  (Ulti.toLower locale r.name, r.verdict locale isPrintableFile)

/-- A part of the output: some line, or a report. -/
inductive Item where
  | line (line : WString)
  | report (r : Report)
  deriving Repr, DecidableEq

/-- The lines of an item. -/
def Item.lines : Item → List WString
  | line l => [l]
  | report r => r.lines

/-- The line does not name a file, and the report is well formed. -/
def Item.WellFormed : Item → Prop
  | line l => Plain l ∧ NoFile locale l
  | report r => r.WellFormed locale

/-- An item that is just a line has no report. -/
def Item.reports : Item → List Report
  | line _ => []
  | report r => [r]

/-- The reports of an output. -/
def reportsOf (items : List Item) : List Report := items.flatMap Item.reports

/-- The lists differ in blank lines at their ends only. -/
def SameEnd (l l' : List WString) : Prop :=
  ∃ lines m n, l = lines ++ List.replicate m [] ∧ l' = lines ++ List.replicate n []

/-- The output of a command. -/
structure TridText where
  /-- Lines end with CRLF. -/
  crlf : Bool
  /-- The last line ends with a newline, too. -/
  closed : Bool
  header : List WString
  items : List Item
  body : List WString

/-- There are five header lines. The other ones are those of the items, up to blank lines at the
end. -/
structure TridText.WellFormed (t : TridText) : Prop where
  header_length : t.header.length = 5
  header_plain : ∀ l ∈ t.header, Plain l
  items : ∀ i ∈ t.items, i.WellFormed locale
  body : SameEnd t.body (t.items.flatMap Item.lines)

/-- The end of a line. -/
def TridText.eol (t : TridText) : WString := if t.crlf then [carriageReturn, newline] else [newline]

/-- The lines as text. -/
def TridText.render (t : TridText) : WString :=
  let lines := t.header ++ t.body
  if t.closed then lines.flatMap fun l => l ++ t.eol
  else (lines.dropLast.flatMap fun l => l ++ t.eol) ++ lines.getLast?.getD []

/-! ### Lines in lower case -/

/-- A round of the loop for a line without a carriage return. -/
def Analysis.read (s : Analysis) (line : WString) : Analysis :=
  s.line locale isPrintableFile (Ulti.toLower locale line)

variable {locale isPrintableFile} {s : Analysis} {r : Report} {line : WString}

/-- No line becomes empty, or stops being so. -/
theorem toLower_eq_nil_iff : Ulti.toLower locale line = [] ↔ line = [] := List.map_eq_nil_iff

/-- The line with the name of a file, in lower case. -/
theorem toLower_fileLine (name : WString) :
    Ulti.toLower locale (wide "File: " ++ name) = wide "file: " ++ Ulti.toLower locale name := by
  have hall : (wide "File: ").all (fun c => c < 128) = true := by decide
  have hlower : Ulti.toLower locale (wide "File: ") = (wide "File: ").map WString.lowerUnit := by
    refine List.map_congr_left fun c hc => locale.ascii c ?_
    exact of_decide_eq_true (List.all_eq_true.mp hall c hc)
  have hprefix : Ulti.toLower locale (wide "File: ") = wide "file: " := by
    rw [hlower]
    decide
  rw [← hprefix]
  exact List.map_append

/-- A line without a carriage return is kept. -/
theorem stripReturn_of_plain (h : Plain line) : stripReturn line = line := by
  refine if_neg fun hlast => h.2 ?_
  exact List.mem_of_getLast? hlast

/-- One carriage return is cut off. -/
theorem stripReturn_append : stripReturn (line ++ [carriageReturn]) = line := by
  unfold stripReturn
  rw [List.getLast?_concat, if_pos rfl, List.dropLast_concat]

/-! ### The rounds -/

/-- A blank line ends a report. -/
theorem read_nil : s.read locale isPrintableFile [] = s.flush locale isPrintableFile := rfl

/-- Without a file there is nothing to flush. -/
theorem flush_of_nil (h : s.currentFile = []) : s.flush locale isPrintableFile = s := if_pos h

/-- Behind a flush no file is open. -/
theorem flush_currentFile : (s.flush locale isPrintableFile).currentFile = [] := by
  unfold Analysis.flush
  split
  · assumption
  · rfl

/-- A second blank line changes nothing. -/
theorem flush_flush : (s.flush locale isPrintableFile).flush locale isPrintableFile =
    s.flush locale isPrintableFile := flush_of_nil flush_currentFile

/-- The line with the name makes the file the current one. -/
theorem read_fileLine (name : WString) : s.read locale isPrintableFile (wide "File: " ++ name) =
    { s with currentFile := Ulti.toLower locale name, foundExtensions := [] } := by
  have hfile : (wide "file: " ++ Ulti.toLower locale name).contains (wide "file: ") = true := by
    unfold WString.contains
    rw [WString.find_zero (List.prefix_append _ _)]
    rfl
  have hile : WString.find (wide "file: " ++ Ulti.toLower locale name) (wide "ile: ") = some 1 := by
    refine WString.find_one (fun h => ?_) (List.prefix_append (wide "ile: ") _)
    -- The first characters are different.
    obtain ⟨rest, hrest⟩ := h
    exact absurd (List.cons.inj hrest).1 (by decide)
  unfold Analysis.read Analysis.line
  rw [toLower_fileLine, if_neg (by simp [wide]), if_pos hfile, hile]
  rfl

/-- A line of a report adds its extensions. -/
theorem read_body (hne : line ≠ []) (hfile : NoFile locale line) :
    s.read locale isPrintableFile line = { s with
      foundExtensions := s.foundExtensions ++ lineExtensions (Ulti.toLower locale line) } := by
  have hno : ¬ (Ulti.toLower locale line).contains (wide "file: ") = true := by
    unfold NoFile at hfile
    simp [hfile]
  unfold Analysis.read Analysis.line
  rw [if_neg fun h => hne (toLower_eq_nil_iff.mp h), if_neg hno]
  by_cases hext : (Ulti.toLower locale line).contains (wide "% (.") = true
  · rw [if_pos hext]
  · rw [if_neg hext]
    -- Without the mark there are no extensions.
    have hnone : (Ulti.toLower locale line).find (wide "% (.") = none := by
      simpa [WString.contains] using hext
    have hempty : lineExtensions (Ulti.toLower locale line) = [] := by
      unfold lineExtensions
      rw [hnone]
      exact ite_self _
    rw [hempty, List.append_nil]

/-- Lines that name no file. -/
theorem foldl_body (body : List WString) (h : ∀ l ∈ body, l ≠ [] ∧ Plain l ∧ NoFile locale l) :
    body.foldl (Analysis.read locale isPrintableFile) s = { s with
      foundExtensions := s.foundExtensions ++
        body.flatMap fun line => lineExtensions (Ulti.toLower locale line) } := by
  induction body generalizing s with
  | nil =>
    rw [List.flatMap_nil, List.append_nil]
    rfl
  | cons line body ih =>
    obtain ⟨⟨hne, -, hfile⟩, hbody⟩ := List.forall_mem_cons.mp h
    rw [List.foldl_cons, read_body hne hfile, ih hbody, List.flatMap_cons, List.append_assoc]

/-- A report adds its result. -/
theorem foldl_report (h : r.WellFormed locale) :
    r.lines.foldl (Analysis.read locale isPrintableFile) s =
      ⟨[], r.extensions locale, s.results ++ [r.result locale isPrintableFile]⟩ := by
  have hname : ¬ Ulti.toLower locale r.name = [] := fun hn => h.name_ne (toLower_eq_nil_iff.mp hn)
  unfold Report.lines
  rw [List.cons_append, List.foldl_cons, read_fileLine, List.foldl_append, foldl_body _ h.body]
  show Analysis.flush _ _ _ = _
  unfold Analysis.flush
  rw [if_neg hname]
  dsimp only
  unfold Report.result Report.verdict Report.extensions
  rw [List.nil_append]
  cases List.any _ _ <;> rfl

/-- The items, from a state without a current file. -/
theorem foldl_items (items : List Item) (h : ∀ i ∈ items, i.WellFormed locale)
    (hs : s.currentFile = []) :
    let s' := (items.flatMap Item.lines).foldl (Analysis.read locale isPrintableFile) s
    s'.currentFile = [] ∧
      s'.results = s.results ++ (reportsOf items).map (Report.result locale isPrintableFile) := by
  induction items generalizing s with
  | nil => exact ⟨hs, (List.append_nil _).symm⟩
  | cons item items ih =>
    obtain ⟨hitem, hitems⟩ := List.forall_mem_cons.mp h
    dsimp only
    rw [List.flatMap_cons, List.foldl_append]
    cases item with
    | line l =>
      -- There is no current file, so neither a blank line nor an extension has an effect.
      have hread : (s.read locale isPrintableFile l).currentFile = [] ∧
          (s.read locale isPrintableFile l).results = s.results := by
        by_cases hl : l = []
        · rw [hl, read_nil, flush_of_nil hs]
          exact ⟨hs, rfl⟩
        · rw [read_body hl hitem.2]
          exact ⟨hs, rfl⟩
      have hrest := ih hitems hread.1
      rw [hread.2] at hrest
      exact hrest
    | report r =>
      -- The blank line at the end of the report leaves no current file.
      have hlines : (Item.report r).lines.foldl (Analysis.read locale isPrintableFile) s =
          ⟨[], r.extensions locale, s.results ++ [r.result locale isPrintableFile]⟩ :=
        foldl_report hitem
      rw [hlines]
      obtain ⟨hcurrent, hresults⟩ := ih (s := ⟨[], r.extensions locale, _⟩) hitems rfl
      refine ⟨hcurrent, hresults.trans ?_⟩
      show _ = s.results ++ (r :: reportsOf items).map _
      rw [List.map_cons, List.append_assoc]
      rfl

/-! ### Blank lines at the end -/

/-- More than one blank line is like a single one. -/
theorem foldl_blanks (n : Nat) : (List.replicate (n + 1) []).foldl
    (Analysis.read locale isPrintableFile) s = s.flush locale isPrintableFile := by
  induction n with
  | zero => rfl
  | succ n ih => rw [List.replicate_succ', List.foldl_append, ih, List.foldl_cons, read_nil,
      flush_flush, List.foldl_nil]

/-- One blank line is as good as several, also if the first lines are skipped. -/
theorem foldl_drop_blanks (lines : List WString) (k m n : Nat) :
    ((lines ++ List.replicate (m + 1) []).drop k).foldl (Analysis.read locale isPrintableFile) {} =
      ((lines ++ List.replicate (n + 1) []).drop k).foldl
        (Analysis.read locale isPrintableFile) {} := by
  -- At the start there is no current file, so any number of blank lines changes nothing.
  have hstart : ∀ j, (List.replicate j []).foldl (Analysis.read locale isPrintableFile) {} =
      {} := by
    intro j
    cases j with
    | zero => rfl
    | succ j => exact (foldl_blanks j).trans (flush_of_nil rfl)
  rw [List.drop_append, List.drop_append, List.drop_replicate, List.drop_replicate]
  rcases Nat.le_total k lines.length with hle | hle
  · -- All blank lines are read.
    rw [Nat.sub_eq_zero_of_le hle, Nat.sub_zero, Nat.sub_zero, List.foldl_append,
      List.foldl_append, foldl_blanks, foldl_blanks]
  · -- Nothing but blank lines is read.
    rw [List.drop_of_length_le hle, List.nil_append, List.nil_append, hstart, hstart]

/-- Lists of lines that differ in blank lines at the end, of which there is at least one in the
first list, have the same results. -/
theorem SameEnd.foldl_drop {l l' : List WString} (h : SameEnd (l ++ [[]]) l') (k : Nat) :
    ((l ++ [[]]).drop k).foldl (Analysis.read locale isPrintableFile) {} =
      ((l' ++ [[]]).drop k).foldl (Analysis.read locale isPrintableFile) {} := by
  obtain ⟨lines, m, n, hl, rfl⟩ := h
  calc ((l ++ List.replicate 1 []).drop k).foldl (Analysis.read locale isPrintableFile) {}
      = ((l ++ List.replicate 2 []).drop k).foldl _ {} := foldl_drop_blanks l k 0 1
    _ = ((l ++ [[]] ++ [[]]).drop k).foldl _ {} := by
        rw [List.append_assoc]
        rfl
    _ = ((lines ++ List.replicate (m + 1) []).drop k).foldl _ {} := by
        rw [hl, List.append_assoc, List.replicate_succ']
    _ = ((lines ++ List.replicate (n + 1) []).drop k).foldl _ {} := foldl_drop_blanks lines k m n
    _ = _ := by
        rw [List.append_assoc, List.replicate_succ']

/-- Lines are put in front of both. -/
theorem SameEnd.append_left {l l' : List WString} (h : SameEnd l l') (front : List WString) :
    SameEnd (front ++ l) (front ++ l') := by
  obtain ⟨lines, m, n, rfl, rfl⟩ := h
  exact ⟨front ++ lines, m, n, (List.append_assoc _ _ _).symm, (List.append_assoc _ _ _).symm⟩

/-- A blank line is put behind the first. -/
theorem SameEnd.concat_blank {l l' : List WString} (h : SameEnd l l') :
    SameEnd (l ++ [[]]) l' := by
  obtain ⟨lines, m, n, rfl, rfl⟩ := h
  refine ⟨lines, m + 1, n, ?_, rfl⟩
  rw [List.append_assoc, List.replicate_succ']

/-- A blank line is put behind the second. -/
theorem SameEnd.concat_blank_right {l l' : List WString} (h : SameEnd l l') :
    SameEnd l (l' ++ [[]]) := by
  obtain ⟨lines, m, n, rfl, rfl⟩ := h
  refine ⟨lines, m, n + 1, rfl, ?_⟩
  rw [List.append_assoc, List.replicate_succ']

/-- The lists can be the same. -/
theorem SameEnd.refl (l : List WString) : SameEnd l l := ⟨l, 0, 0, by simp, by simp⟩

/-! ### Newlines at the end -/

/-- A text that ends with a newline: the character in front of it decides. -/
theorem addNewlines_two (t : WString) (c : UInt16) : addNewlines (t ++ [c, newline]) =
    some (if c = newline then t ++ [c, newline] else t ++ [c, newline] ++ [newline]) := by
  have hlast : (t ++ [c, newline]).getLast? = some newline := by simp
  have hclosed : (if (t ++ [c, newline]).getLast? ≠ some newline then
      t ++ [c, newline] ++ [newline] else t ++ [c, newline]) = t ++ [c, newline] :=
    if_neg fun h => h hlast
  have hlen : (t ++ [c, newline]).length - 2 = t.length := by simp
  have hget : (t ++ [c, newline])[t.length]? = some c := by simp
  unfold addNewlines
  dsimp only
  rw [hclosed, if_neg (by simp), hlen, hget]
  by_cases hc : c = newline
  · rw [if_neg fun h => h (congrArg some hc), if_pos hc]
  · rw [if_pos fun h => hc (Option.some.inj h), if_neg hc]

/-- A text that does not end with a newline gets two. -/
theorem addNewlines_one (t : WString) {c : UInt16} (hc : c ≠ newline) :
    addNewlines (t ++ [c]) = some (t ++ [c, newline] ++ [newline]) := by
  have hlast : (t ++ [c]).getLast? ≠ some newline := by simpa using hc
  have hclosed : (if (t ++ [c]).getLast? ≠ some newline then t ++ [c] ++ [newline]
      else t ++ [c]) = t ++ [c, newline] := by
    rw [if_pos hlast]
    simp
  have hlen : (t ++ [c, newline]).length - 2 = t.length := by simp
  have hget : (t ++ [c, newline])[t.length]? = some c := by simp
  unfold addNewlines
  dsimp only
  rw [hclosed, if_neg (by simp), hlen, hget, if_pos fun h => hc (Option.some.inj h)]

/-- Lines as text, with a newline behind each. -/
def joinLines (raw : List WString) : WString := raw.flatMap fun l => l ++ [newline]

/-- One more line. -/
theorem joinLines_concat (raw : List WString) (last : WString) :
    joinLines (raw ++ [last]) = joinLines raw ++ last ++ [newline] := by
  simp [joinLines]

/-- The lines are read back, if none of them has a newline in it. -/
theorem getlines_joinLines {raw : List WString} (hraw : ∀ l ∈ raw, newline ∉ l) :
    WString.getlines newline (joinLines raw) = raw := WString.getlines_flatMap hraw

/-- A line that is not empty ends with a character that is no newline. -/
theorem exists_concat_of_ne_nil {last : WString} (hne : last ≠ []) (hlast : newline ∉ last) :
    ∃ l c, last = l ++ [c] ∧ c ≠ newline := by
  obtain ⟨l, c, rfl⟩ := List.eq_nil_or_concat last |>.resolve_left hne
  rw [List.concat_eq_append] at *
  refine ⟨l, c, rfl, ?_⟩
  rintro rfl
  exact hlast (by simp)

/-- After the last line there is one more newline, if the line is not empty. -/
theorem addNewlines_closed (raw : List WString) (hlen : 2 ≤ raw.length)
    (hraw : ∀ l ∈ raw, newline ∉ l) :
    ∃ out lines, addNewlines (joinLines raw) = some out ∧
      WString.getlines newline out = lines ++ [[]] ∧ (lines = raw ∨ lines ++ [[]] = raw) := by
  obtain ⟨front, last, rfl⟩ := List.eq_nil_or_concat raw |>.resolve_left fun h => by
    simp [h] at hlen
  rw [List.concat_eq_append] at *
  by_cases hempty : last = []
  · -- The text ends with two newlines already.
    subst hempty
    obtain ⟨front', l, rfl⟩ := List.eq_nil_or_concat front |>.resolve_left fun h => by
      simp [h] at hlen
    rw [List.concat_eq_append] at *
    have htext : joinLines (front' ++ [l] ++ [[]]) =
        joinLines front' ++ l ++ [newline, newline] := by
      simp [joinLines]
    refine ⟨joinLines (front' ++ [l] ++ [[]]), front' ++ [l], ?_, getlines_joinLines hraw, .inr rfl⟩
    rw [htext, addNewlines_two, if_pos rfl]
  · -- The character in front of the newline belongs to the last line.
    obtain ⟨l, c, rfl, hc⟩ := exists_concat_of_ne_nil hempty (hraw last (by simp))
    have htext : joinLines (front ++ [l ++ [c]]) = joinLines front ++ l ++ [c, newline] := by
      simp [joinLines]
    refine ⟨joinLines (front ++ [l ++ [c]] ++ [[]]), front ++ [l ++ [c]], ?_, ?_, .inl rfl⟩
    · rw [joinLines_concat _ [], htext, addNewlines_two, if_neg hc, List.append_nil]
    · refine getlines_joinLines fun k hk => ?_
      rcases List.mem_append.mp hk with hk | hk
      · exact hraw k hk
      · rw [List.mem_singleton.mp hk]
        exact List.not_mem_nil

/-- After an unfinished line there are two more newlines. -/
theorem addNewlines_open (raw : List WString) {last : WString} (hraw : ∀ l ∈ raw, newline ∉ l)
    (hlast : newline ∉ last) (hne : last ≠ []) :
    ∃ out, addNewlines (joinLines raw ++ last) = some out ∧
      WString.getlines newline out = raw ++ [last] ++ [[]] := by
  obtain ⟨l, c, rfl, hc⟩ := exists_concat_of_ne_nil hne hlast
  refine ⟨joinLines (raw ++ [l ++ [c]] ++ [[]]), ?_, ?_⟩
  · have htext : joinLines (raw ++ [l ++ [c]]) = joinLines raw ++ l ++ [c, newline] := by
      simp [joinLines]
    rw [joinLines_concat _ [], htext, List.append_nil, ← List.append_assoc, addNewlines_one _ hc]
  · refine getlines_joinLines fun k hk => ?_
    rcases List.mem_append.mp hk with hk | hk
    · rcases List.mem_append.mp hk with hk | hk
      · exact hraw k hk
      · rw [List.mem_singleton.mp hk]
        exact hlast
    · rw [List.mem_singleton.mp hk]
      exact List.not_mem_nil

/-! ### The text -/

variable {t : TridText}

/-- The carriage return in front of a newline, if there is one. -/
def TridText.cr (t : TridText) : WString := if t.crlf then [carriageReturn] else []

/-- The end of a line is cut off, be it one character or two. -/
theorem stripReturn_cr (h : Plain line) : stripReturn (line ++ t.cr) = line := by
  unfold TridText.cr
  by_cases hcrlf : t.crlf = true
  · rw [if_pos hcrlf]
    exact stripReturn_append
  · rw [if_neg hcrlf, List.append_nil]
    exact stripReturn_of_plain h

/-- The ends of all lines are cut off. -/
theorem map_stripReturn {lines : List WString} (h : ∀ l ∈ lines, Plain l) :
    (lines.map fun l => l ++ t.cr).map stripReturn = lines := by
  rw [List.map_map]
  exact (List.map_congr_left fun l hl => stripReturn_cr (h l hl)).trans (List.map_id _)

/-- No line has a newline in it. -/
theorem newline_notMem_cr (h : Plain line) : newline ∉ line ++ t.cr := by
  intro hmem
  rcases List.mem_append.mp hmem with hmem | hmem
  · exact h.1 hmem
  · unfold TridText.cr at hmem
    split at hmem
    · exact absurd hmem (by decide)
    · exact absurd hmem List.not_mem_nil

/-- The lines that are read from a closed text are those of the text, up to blank lines, and the
last one is blank. -/
theorem lines_closed (lines : List WString) (hlen : 2 ≤ lines.length)
    (hplain : ∀ l ∈ lines, Plain l) :
    ∃ out read, addNewlines (joinLines (lines.map fun l => l ++ t.cr)) = some out ∧
      (WString.getlines newline out).map stripReturn = read ++ [[]] ∧
      SameEnd (read ++ [[]]) lines := by
  have hnewline : ∀ l ∈ lines.map fun l => l ++ t.cr, newline ∉ l := by
    intro l hl
    obtain ⟨l', hl', rfl⟩ := List.mem_map.mp hl
    exact newline_notMem_cr (hplain l' hl')
  obtain ⟨out, raw, hout, hlines, hraw⟩ := addNewlines_closed _ (by simpa using hlen) hnewline
  have hstrip := map_stripReturn (t := t) hplain
  refine ⟨out, raw.map stripReturn, hout, ?_, ?_⟩
  · rw [hlines, List.map_append]
    rfl
  · rcases hraw with rfl | hraw
    · rw [hstrip]
      exact (SameEnd.refl lines).concat_blank
    · have hread : raw.map stripReturn ++ [[]] = lines := by
        rw [← hstrip, ← hraw, List.map_append]
        rfl
      rw [hread]
      exact SameEnd.refl lines

/-- All lines of the items are plain. -/
theorem plain_items {items : List Item} (h : ∀ i ∈ items, i.WellFormed locale) :
    ∀ l ∈ items.flatMap Item.lines, Plain l := by
  have hnil : Plain [] := ⟨List.not_mem_nil, List.not_mem_nil⟩
  intro l hl
  obtain ⟨item, hitem, hmem⟩ := List.mem_flatMap.mp hl
  have hwf := h item hitem
  cases item with
  | line l' =>
    rw [List.mem_singleton.mp hmem]
    exact hwf.1
  | report r =>
    rcases List.mem_cons.mp hmem with rfl | hmem
    · -- The line with the name. Its prefix is plain, too.
      have hfile : newline ∉ wide "File: " ∧ carriageReturn ∉ wide "File: " := by decide
      exact ⟨fun hn => (List.mem_append.mp hn).elim hfile.1 hwf.name_plain.1,
        fun hn => (List.mem_append.mp hn).elim hfile.2 hwf.name_plain.2⟩
    · rcases List.mem_append.mp hmem with hmem | hmem
      · exact (hwf.body l hmem).2.1
      · rw [List.mem_singleton.mp hmem]
        exact hnil

/-- All lines of the text are plain. -/
theorem TridText.WellFormed.plain (h : t.WellFormed locale) :
    ∀ l ∈ t.header ++ t.body, Plain l := by
  intro l hl
  rcases List.mem_append.mp hl with hl | hl
  · exact h.header_plain l hl
  · obtain ⟨lines, m, n, hbody, hitems⟩ := h.body
    rw [hbody] at hl
    rcases List.mem_append.mp hl with hl | hl
    · refine plain_items h.items l ?_
      rw [hitems]
      exact List.mem_append_left _ hl
    · rw [(List.mem_replicate.mp hl).2]
      exact ⟨List.not_mem_nil, List.not_mem_nil⟩

/-- The two ends of a line differ in the carriage return. -/
theorem flatMap_eol (lines : List WString) :
    (lines.flatMap fun l => l ++ t.eol) = joinLines (lines.map fun l => l ++ t.cr) := by
  have heol : t.eol = t.cr ++ [newline] := by
    unfold TridText.eol TridText.cr
    cases t.crlf <;> rfl
  unfold joinLines
  rw [List.flatMap_map, heol]
  simp only [List.append_assoc]

/-- The lines that are read from the text of an output. -/
theorem TridText.WellFormed.lines (h : t.WellFormed locale) :
    ∃ out read, addNewlines t.render = some out ∧
      (WString.getlines newline out).map stripReturn = read ++ [[]] ∧
      SameEnd (read ++ [[]]) (t.header ++ t.body) := by
  have hplain := h.plain
  have hlen : 5 ≤ (t.header ++ t.body).length := by
    rw [List.length_append, h.header_length]
    omega
  unfold TridText.render
  generalize t.header ++ t.body = lines at hplain hlen ⊢
  dsimp only
  by_cases hclosed : t.closed = true
  · rw [if_pos hclosed, flatMap_eol]
    exact lines_closed _ (by omega) hplain
  · rw [if_neg hclosed, flatMap_eol]
    obtain ⟨front, last, rfl⟩ := List.eq_nil_or_concat lines |>.resolve_left fun hn => by
      simp [hn] at hlen
    rw [List.concat_eq_append] at *
    rw [List.dropLast_concat, List.getLast?_concat, Option.getD_some]
    have hfront : ∀ l ∈ front, Plain l := fun l hl => hplain l (List.mem_append_left _ hl)
    by_cases hempty : last = []
    · -- The last line is blank, so the text is the closed one without it.
      subst hempty
      obtain ⟨out, read, hout, hread, hsame⟩ := lines_closed (t := t) front
        (by simp at hlen; omega) hfront
      rw [List.append_nil]
      exact ⟨out, read, hout, hread, hsame.concat_blank_right⟩
    · -- The last line is not finished, and gets no carriage return.
      have hlast := hplain last (by simp)
      have hnewline : ∀ l ∈ front.map fun l => l ++ t.cr, newline ∉ l := by
        intro l hl
        obtain ⟨l', hl', rfl⟩ := List.mem_map.mp hl
        exact newline_notMem_cr (hfront l' hl')
      obtain ⟨out, hout, hread⟩ := addNewlines_open _ hnewline hlast.1 hempty
      refine ⟨out, front ++ [last], hout, ?_, (SameEnd.refl _).concat_blank⟩
      rw [hread, List.map_append, List.map_append, map_stripReturn hfront]
      show front ++ [stripReturn last] ++ [[]] = _
      rw [stripReturn_of_plain hlast]

/-- The results for five header lines and the lines of some items, up to blank lines at the end. -/
theorem analyzeTridOutput_of_lines (isPrintableFile : WString → Bool) {out : WString}
    {header body read : List WString} {items : List Item} (hheader : header.length = 5)
    (hitems : ∀ i ∈ items, i.WellFormed locale)
    (hread : (WString.getlines newline out).map stripReturn = read ++ [[]])
    (hsame : SameEnd (read ++ [[]]) (header ++ body))
    (hbody : SameEnd body (items.flatMap Item.lines)) :
    analyzeTridOutput locale isPrintableFile out =
      (reportsOf items).map (Report.result locale isPrintableFile) := by
  have hstep : ∀ (l : List WString) (s : Analysis),
      l.foldl (Analysis.step locale isPrintableFile) s =
        (l.map stripReturn).foldl (Analysis.read locale isPrintableFile) s := by
    intro l s
    rw [List.foldl_map]
    rfl
  have hlines : SameEnd (header ++ body ++ [[]]) (header ++ items.flatMap Item.lines) :=
    (hbody.append_left header).concat_blank
  obtain ⟨hcurrent, hresults⟩ := @foldl_items locale isPrintableFile {} items hitems rfl
  unfold analyzeTridOutput
  rw [hstep, List.map_drop, hread, hsame.foldl_drop, hlines.foldl_drop, List.append_assoc,
    List.drop_left' hheader, List.foldl_append]
  show (Analysis.flush _ _ _).results = _
  rw [flush_of_nil hcurrent, hresults]
  rfl

/-- The results are those of the reports, in order. -/
theorem analyzeTridOutput_text (isPrintableFile : WString → Bool) (h : t.WellFormed locale) :
    ∃ out, addNewlines t.render = some out ∧
      analyzeTridOutput locale isPrintableFile out =
        (reportsOf t.items).map (Report.result locale isPrintableFile) := by
  obtain ⟨out, read, hout, hread, hsame⟩ := h.lines
  exact ⟨out, hout, analyzeTridOutput_of_lines _ h.header_length h.items hread hsame h.body⟩

end Manager

end KernelEventsTrace.EtwService
