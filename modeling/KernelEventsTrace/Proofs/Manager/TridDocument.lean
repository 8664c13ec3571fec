import KernelEventsTrace.Proofs.Manager.TridOutput
import KernelEventsTrace.Proofs.Text.Split

/-!
# `KernelEventsTrace.Proofs.Manager.TridDocument`: reports as TrID prints them

A `Document` is five header lines and the lines of some reports. The last blank line can be
missing, and so can the end of the last line, or its newline alone.

`Lists` says which extensions a line lists, without the positions that the source computes
(`mem_lineExtensions_iff`). `analyzeTridOutput_document`: there is one result for each report, in
order, and it is true if and only if a line of this report lists the extension of its file or the
file is printable.
-/

set_option autoImplicit false

namespace KernelEventsTrace.EtwService

namespace WString

/-! ### Pieces -/

/-- A piece in front of a delimiter, or one at the end that is not empty. -/
def Piece (delim : UInt16) (s piece : WString) : Prop :=
  piece ∈ (s.splitOn delim).dropLast ∨
    ((s.splitOn delim).getLast? = some piece ∧ piece ≠ [])

/-- A text is split at its delimiters. -/
theorem splitOn_cons (delim c : UInt16) (s : WString) :
    (c :: s).splitOn delim =
      if c = delim then [] :: s.splitOn delim else (s.splitOn delim).modifyHead (List.cons c) := by
  unfold List.splitOn
  rw [List.splitOnP_cons_eq_if_modifyHead]
  simp

/-- `getline` has no result for an empty piece at the end. -/
theorem splitOn_eq_getlines (delim : UInt16) (s : WString) :
    (s.splitOn delim = getlines delim s ++ [[]]) ∨
      (s.splitOn delim = getlines delim s ∧ ∃ last, (getlines delim s).getLast? = some last ∧
        last ≠ []) := by
  induction s with
  | nil => exact .inl rfl
  | cons c s ih =>
    rw [splitOn_cons]
    by_cases hc : c = delim
    · rw [if_pos hc, getlines, if_pos hc]
      rcases ih with ih | ⟨ih, last, hlast, hne⟩
      · rw [ih]
        exact .inl rfl
      · rw [ih]
        refine .inr ⟨rfl, last, ?_, hne⟩
        rw [List.getLast?_cons, hlast]
        rfl
    · rw [if_neg hc, getlines, if_neg hc]
      -- The character goes to the first piece.
      cases hlines : getlines delim s with
      | nil =>
        rw [hlines] at ih
        rcases ih with ih | ⟨ih, last, hlast, hne⟩
        · rw [ih]
          exact .inr ⟨rfl, [c], rfl, List.cons_ne_nil _ _⟩
        · cases hlast
      | cons line lines =>
        rw [hlines] at ih
        rcases ih with ih | ⟨ih, last, hlast, hne⟩
        · rw [ih]
          exact .inl rfl
        · rw [ih]
          refine .inr ⟨rfl, ?_⟩
          cases lines with
          | nil => exact ⟨c :: line, rfl, List.cons_ne_nil _ _⟩
          | cons line' lines =>
            rw [List.getLast?_cons_cons] at hlast
            exact ⟨last, by rw [List.getLast?_cons_cons, hlast], hne⟩

/-- The lines of a text are the pieces between its newlines. -/
theorem mem_getlines_iff {delim : UInt16} {s piece : WString} :
    piece ∈ getlines delim s ↔ Piece delim s piece := by
  unfold Piece
  rcases splitOn_eq_getlines delim s with hsplit | ⟨hsplit, last, hlast, hne⟩
  · rw [hsplit, List.dropLast_concat, List.getLast?_concat]
    constructor
    · exact .inl
    · rintro (hmem | ⟨hempty, hne⟩)
      · exact hmem
      · exact absurd (Option.some.inj hempty).symm hne
  · rw [hsplit]
    obtain ⟨front, hfront⟩ := List.getLast?_eq_some_iff.mp hlast
    rw [hfront, List.dropLast_concat, List.getLast?_concat, List.mem_append, List.mem_singleton]
    constructor
    · rintro (hmem | rfl)
      · exact .inl hmem
      · exact .inr ⟨rfl, hne⟩
    · rintro (hmem | ⟨heq, -⟩)
      · exact .inl hmem
      · exact .inr (Option.some.inj heq).symm

end WString

namespace Manager

open WString

/-! ### Lines that list extensions -/

/-- The mark in front of the extensions of a type. -/
def extensionMark : WString := wide "% (."

/-- A line lists the extension: it stands between the first mark and the next bracket, with slashes
around it, and the line is not about ransomware or encrypted files. -/
structure Lists (line ext : WString) : Prop where
  no_ransom : ¬ wide "ransom" <:+: line
  no_encrypt : ¬ wide "encrypt" <:+: line
  listed : ∃ front exts back, line = front ++ extensionMark ++ exts ++ 41 :: back ∧
    (∀ i < front.length, ¬ extensionMark <+: line.drop i) ∧ 41 ∉ exts ∧ Piece 47 exts ext

/-- The source looks for the first mark, and behind it for the next bracket. -/
theorem lineExtensions_of_mark {front back line : WString}
    (hword : ¬ (wide "ransom" <:+: line ∨ wide "encrypt" <:+: line))
    (hline : line = front ++ extensionMark ++ back)
    (hfirst : ∀ i < front.length, ¬ extensionMark <+: line.drop i) :
    lineExtensions line =
      match back.findChar 41 0 with
      | none => []
      | some n => getlines 47 (back.take n) := by
  rw [← contains_iff, ← contains_iff] at hword
  have hfind : line.find (wide "% (.") = some front.length := by
    rw [find_eq_some_iff]
    refine ⟨by rw [hline]; simp, ?_, hfirst⟩
    rw [hline, List.append_assoc, List.drop_left]
    exact List.prefix_append _ _
  have hstart : front.length + (wide "% (.").length = (front ++ extensionMark).length :=
    List.length_append.symm
  have hbracket : line.findChar 41 (front ++ extensionMark).length =
      (back.findChar 41 0).map fun n => (front ++ extensionMark).length + n := by
    rw [hline]
    exact findChar_append_length
  have hdrop : line.drop (front ++ extensionMark).length = back := by
    rw [hline, List.drop_left]
  unfold lineExtensions
  rw [if_neg hword, hfind]
  dsimp only
  rw [hstart, hbracket, hdrop]
  cases back.findChar 41 0 with
  | none => rfl
  | some n =>
    dsimp only [Option.map_some]
    rw [Nat.add_sub_cancel_left]

/-- The extensions of a line are those it lists in parentheses. -/
theorem mem_lineExtensions_iff {line ext : WString} :
    ext ∈ lineExtensions line ↔ Lists line ext := by
  constructor
  · intro h
    have hword : ¬ (wide "ransom" <:+: line ∨ wide "encrypt" <:+: line) := by
      rw [← contains_iff, ← contains_iff]
      intro hword
      unfold lineExtensions at h
      rw [if_pos hword] at h
      cases h
    have hmark : ∃ n, line.find extensionMark = some n := by
      cases hfind : line.find extensionMark with
      | none =>
        unfold extensionMark at hfind
        unfold lineExtensions at h
        rw [hfind, ite_self] at h
        cases h
      | some n => exact ⟨n, rfl⟩
    obtain ⟨n, hn⟩ := hmark
    obtain ⟨front, back, hline, rfl, hfirst⟩ := eq_of_find hn
    rw [lineExtensions_of_mark hword hline hfirst] at h
    cases hbracket : back.findChar 41 0 with
    | none =>
      rw [hbracket] at h
      cases h
    | some k =>
      rw [hbracket] at h
      obtain ⟨exts, back, rfl, rfl, hexts⟩ := eq_of_findChar hbracket
      dsimp only at h
      rw [List.take_left, mem_getlines_iff] at h
      obtain ⟨hransom, hencrypt⟩ := not_or.mp hword
      refine ⟨hransom, hencrypt, front, exts, back, ?_, hfirst, hexts, h⟩
      rw [hline]
      exact (List.append_assoc _ _ _).symm
  · rintro ⟨hransom, hencrypt, front, exts, back, hline, hfirst, hexts, hpiece⟩
    rw [List.append_assoc] at hline
    rw [lineExtensions_of_mark (not_or.mpr ⟨hransom, hencrypt⟩) hline hfirst,
      findChar_append (Nat.zero_le _) fun i _ => getElem?_ne_of_notMem hexts i]
    dsimp only
    rw [List.take_left, mem_getlines_iff]
    exact hpiece

/-! ### Documents -/

/-- What is missing at the end of a document: nothing, the last newline, or the end of the last line
with its carriage return. -/
inductive Ending where
  | whole
  | noNewline
  | noLineEnd
  deriving Repr, DecidableEq

/-- A header and some reports. -/
structure Document where
  /-- Lines end with CRLF. -/
  crlf : Bool
  header : List WString
  blocks : List Report
  /-- The blank line at the end of the last report is there. -/
  blank : Bool
  ending : Ending
  deriving Repr, DecidableEq

/-- The header has five lines, and the reports are well formed. -/
structure Document.WellFormed (locale : Locale) (d : Document) : Prop where
  header_length : d.header.length = 5
  header_plain : ∀ l ∈ d.header, Plain l
  blocks : ∀ r ∈ d.blocks, r.WellFormed locale

/-- The lines of the reports. -/
def Document.body (d : Document) : List WString :=
  if d.blank then d.blocks.flatMap Report.lines else (d.blocks.flatMap Report.lines).dropLast

/-- The end of a line. -/
def Document.eol (d : Document) : WString := if d.crlf then [carriageReturn, newline] else [newline]

/-- The document as text. -/
def Document.render (d : Document) : WString :=
  let text := (d.header ++ d.body).flatMap fun l => l ++ d.eol
  match d.ending with
  | .whole => text
  | .noNewline => text.dropLast
  | .noLineEnd => text.take (text.length - d.eol.length)

/-- The result for a report: the name in lower case, and whether a line of the report lists the
extension of the file or the file is printable. -/
structure Answers (locale : Locale) (isPrintableFile : WString → Bool) (r : Report)
    (result : WString × Bool) : Prop where
  name : result.1 = Ulti.toLower locale r.name
  verdict : result.2 = true ↔
    (∃ line ∈ r.body, Lists (Ulti.toLower locale line)
      (getFileExtension locale (Ulti.toLower locale r.name))) ∨
    isPrintableFile (Ulti.toLower locale r.name) = true

/-- The result of a report answers it. -/
theorem answers_result (locale : Locale) (isPrintableFile : WString → Bool) (r : Report) :
    Answers locale isPrintableFile r (r.result locale isPrintableFile) where
  name := rfl
  verdict := by
    show r.verdict locale isPrintableFile = true ↔ _
    unfold Report.verdict Report.extensions
    rw [Bool.or_eq_true, List.any_eq_true]
    simp only [decide_eq_true_eq, exists_eq_right, List.mem_flatMap, mem_lineExtensions_iff]

section
variable {locale : Locale} {d : Document}

/-- The text of a document, but for a single newline that is missing behind a carriage return. -/
def Document.text (d : Document) : TridText where
  crlf := d.crlf
  closed := d.ending = .whole
  header := d.header
  items := d.blocks.map Item.report
  body := d.body

/-- The lines of the reports alone. -/
theorem flatMap_lines_report (blocks : List Report) :
    (blocks.map Item.report).flatMap Item.lines = blocks.flatMap Report.lines :=
  List.flatMap_map ..

/-- The reports of the reports alone. -/
theorem reportsOf_report (blocks : List Report) : reportsOf (blocks.map Item.report) = blocks := by
  unfold reportsOf
  rw [List.flatMap_map]
  exact List.flatMap_singleton' blocks

/-- The lines of a document without its last blank line are the same, up to blank lines. -/
theorem Document.sameEnd_body (d : Document) :
    SameEnd d.body ((d.blocks.map Item.report).flatMap Item.lines) := by
  rw [flatMap_lines_report]
  unfold Document.body
  cases hblank : d.blank with
  | true => exact SameEnd.refl _
  | false =>
    show SameEnd (d.blocks.flatMap Report.lines).dropLast _
    cases hblocks : d.blocks using List.reverseRecOn with
    | nil => exact SameEnd.refl _
    | append_singleton blocks r =>
      have hlast : (blocks ++ [r]).flatMap Report.lines =
          blocks.flatMap Report.lines ++ (wide "File: " ++ r.name) :: r.body ++ [[]] := by
        rw [List.flatMap_append, List.append_assoc]
        simp [Report.lines]
      rw [hlast, List.dropLast_concat]
      exact (SameEnd.refl _).concat_blank_right

/-- The document as a text of items. -/
theorem Document.WellFormed.text (h : d.WellFormed locale) : d.text.WellFormed locale where
  header_length := h.header_length
  header_plain := h.header_plain
  items := by
    intro item hitem
    obtain ⟨r, hr, rfl⟩ := List.mem_map.mp hitem
    exact h.blocks r hr
  body := d.sameEnd_body

/-- What the text ends with, when the end of the last line is missing. -/
theorem take_flatMap_eol (front : List WString) (last eol : WString) :
    ((front ++ [last]).flatMap fun l => l ++ eol).take
        (((front ++ [last]).flatMap fun l => l ++ eol).length - eol.length) =
      (front.flatMap fun l => l ++ eol) ++ last := by
  have htext : ((front ++ [last]).flatMap fun l => l ++ eol) =
      (front.flatMap fun l => l ++ eol) ++ last ++ eol := by
    simp
  rw [htext, List.length_append, Nat.add_sub_cancel, List.take_left]

/-- What the text ends with, when the last newline is missing behind a carriage return. -/
theorem dropLast_flatMap_crlf (front : List WString) (last : WString) :
    ((front ++ [last]).flatMap fun l => l ++ [carriageReturn, newline]).dropLast =
      (front.flatMap fun l => l ++ [carriageReturn, newline]) ++ (last ++ [carriageReturn]) := by
  have htext : ((front ++ [last]).flatMap fun l => l ++ [carriageReturn, newline]) =
      (front.flatMap fun l => l ++ [carriageReturn, newline]) ++ (last ++ [carriageReturn]) ++
        [newline] := by
    simp
  rw [htext, List.dropLast_concat]

/-- The document has a line. -/
theorem Document.WellFormed.lines_ne (h : d.WellFormed locale) : d.header ++ d.body ≠ [] := by
  intro hnil
  have hlen := h.header_length
  rw [(List.append_eq_nil_iff.mp hnil).1] at hlen
  cases hlen

/-- Unless a carriage return is left over, the document is such a text. -/
theorem Document.WellFormed.render_text (h : d.WellFormed locale)
    (hend : d.ending = .noNewline → d.crlf = false) : d.render = d.text.render := by
  obtain ⟨front, last, hlines⟩ := (List.eq_nil_or_concat _).resolve_left h.lines_ne
  rw [List.concat_eq_append] at hlines
  have hopen : d.ending ≠ .whole → d.text.render =
      (front.flatMap fun l => l ++ d.eol) ++ last := by
    intro hending
    unfold TridText.render
    show (if decide (d.ending = .whole) = true then _ else
      (((d.header ++ d.body).dropLast).flatMap fun l => l ++ d.eol) ++
        ((d.header ++ d.body).getLast?).getD []) = _
    rw [if_neg (by simpa using hending), hlines, List.dropLast_concat, List.getLast?_concat]
    rfl
  unfold Document.render
  cases hending : d.ending with
  | whole =>
    unfold TridText.render
    show _ = if decide (d.ending = .whole) = true then _ else _
    rw [if_pos (by simpa using hending)]
    rfl
  | noNewline =>
    have heol : d.eol = [newline] := by
      unfold Document.eol
      rw [hend hending]
      rfl
    rw [hopen (by simp [hending]), ← take_flatMap_eol, hlines, heol]
    exact List.dropLast_eq_take
  | noLineEnd =>
    rw [hopen (by simp [hending]), ← take_flatMap_eol, hlines]

/-- A carriage return that is left over belongs to the last line, and is dropped with the other
ones. -/
theorem Document.WellFormed.lines_noNewline (h : d.WellFormed locale)
    (hending : d.ending = .noNewline) (hcrlf : d.crlf = true) :
    ∃ out, addNewlines d.render = some out ∧
      (WString.getlines newline out).map stripReturn = (d.header ++ d.body) ++ [[]] := by
  obtain ⟨front, last, hlines⟩ := (List.eq_nil_or_concat _).resolve_left h.lines_ne
  rw [List.concat_eq_append] at hlines
  have hplain : ∀ l ∈ front ++ [last], Plain l := hlines ▸ h.text.plain
  have hrender : d.render =
      joinLines (front.map fun l => l ++ [carriageReturn]) ++ (last ++ [carriageReturn]) := by
    unfold Document.render Document.eol joinLines
    rw [hending, hcrlf, hlines]
    show List.dropLast _ = _
    rw [if_pos rfl, dropLast_flatMap_crlf, List.flatMap_map]
    simp
  have hfront : ∀ l ∈ front.map fun l => l ++ [carriageReturn], newline ∉ l := by
    intro l hl
    obtain ⟨l', hl', rfl⟩ := List.mem_map.mp hl
    have hplain' := (hplain l' (List.mem_append_left _ hl')).1
    simpa [hplain'] using by decide
  have hlast : newline ∉ last ++ [carriageReturn] := by
    have hplain' := (hplain last (by simp)).1
    simpa [hplain'] using by decide
  obtain ⟨out, hout, hread⟩ := addNewlines_open _ hfront hlast (by simp)
  refine ⟨out, by rw [hrender, hout], ?_⟩
  rw [hread, hlines, List.map_append, List.map_append, List.map_map]
  have hstrip : front.map (stripReturn ∘ fun l => l ++ [carriageReturn]) = front :=
    (List.map_congr_left fun _ _ => stripReturn_append).trans (List.map_id _)
  rw [hstrip]
  show front ++ [stripReturn (last ++ [carriageReturn])] ++ [[]] = _
  rw [stripReturn_append]

/-- There is one result for each report of the document, in order. -/
theorem analyzeTridOutput_document (isPrintableFile : WString → Bool) (h : d.WellFormed locale) :
    ∃ out, addNewlines d.render = some out ∧
      List.Forall₂ (Answers locale isPrintableFile) d.blocks
        (analyzeTridOutput locale isPrintableFile out) := by
  have hout : ∃ out, addNewlines d.render = some out ∧
      analyzeTridOutput locale isPrintableFile out =
        (reportsOf (d.blocks.map Item.report)).map (Report.result locale isPrintableFile) := by
    by_cases hend : d.ending = .noNewline → d.crlf = false
    · rw [h.render_text hend]
      exact analyzeTridOutput_text isPrintableFile h.text
    · obtain ⟨hending, hcrlf⟩ : d.ending = .noNewline ∧ d.crlf = true := by simpa using hend
      obtain ⟨out, hout, hread⟩ := h.lines_noNewline hending hcrlf
      exact ⟨out, hout, analyzeTridOutput_of_lines isPrintableFile h.header_length h.text.items
        hread (SameEnd.refl _).concat_blank d.sameEnd_body⟩
  obtain ⟨out, hadd, hresults⟩ := hout
  refine ⟨out, hadd, ?_⟩
  rw [hresults, reportsOf_report, List.forall₂_map_right_iff, List.forall₂_same]
  exact fun r _ => answers_result locale isPrintableFile r

end

/-- A document with one report. Its last newline is missing. -/
def wordDocument : Document where
  crlf := true
  header := [[], wide "TrID", [], wide "Definitions found", []]
  blocks := [⟨wide "C:\\A.doc", [wide " 60.0% (.DOC/DOT) Word", wide " 40.0% (.XLS) Excel"]⟩]
  blank := false
  ending := .noNewline

/-- The document is one of TrID. -/
theorem wellFormed_wordDocument : wordDocument.WellFormed .asciiOnly where
  header_length := rfl
  header_plain := by
    unfold Plain
    decide
  blocks := by
    intro r hr
    obtain rfl := List.mem_singleton.mp hr
    refine ⟨by decide, by unfold Plain; decide, ?_⟩
    unfold Plain NoFile
    decide

/-- A report about a Word file is answered. -/
theorem analyzeTridOutput_document_word : ∃ out, addNewlines wordDocument.render = some out ∧
    List.Forall₂ (Answers .asciiOnly fun _ => false) wordDocument.blocks
      (analyzeTridOutput .asciiOnly (fun _ => false) out) :=
  analyzeTridOutput_document _ wellFormed_wordDocument

end Manager

end KernelEventsTrace.EtwService
