import KernelEventsTrace.EtwService.Manager.Evaluate
import KernelEventsTrace.EtwService.Ulti

/-!
# `KernelEventsTrace.EtwService.Manager.Trid`: the verdicts of TrID

`GetFileExtension`, `AnalyzeTridOutput` and `CheckTrID` of `manager/file_manager.cpp`, and
`trid_map` of `EvaluateProcess` in `manager/manager.cpp`. `CheckTrID` runs TrID on a few files at a
time and puts the results of all runs one behind the other. `EvaluateProcess` then takes the result
at a position as that of the path at this position.

A read outside of a string or a list is `none`.
-/

set_option autoImplicit false

namespace KernelEventsTrace.EtwService.Manager

/-- `L'\n'`. -/
def newline : UInt16 := 10

/-- `L'\r'`. -/
def carriageReturn : UInt16 := 13

/-- Where TrID is. -/
def TRID_PATH : WString := wide "E:\\hieunt20210330\\Trid\\trid.exe"

/-! ### The output of one command -/

/-- The local variables of `AnalyzeTridOutput`. -/
structure Analysis where
  currentFile : WString := []
  foundExtensions : List WString := []
  results : List (WString × Bool) := []
  deriving Repr, DecidableEq

/-- A line without its carriage return. -/
def stripReturn (line : WString) : WString :=
  if line.getLast? = some carriageReturn then line.dropLast else line

/-- The extensions of a line. There can be several, with slashes between them. -/
def lineExtensions (line : WString) : List WString :=
  if line.contains (wide "ransom") ∨ line.contains (wide "encrypt") then []
  else
    match line.find (wide "% (.") with
    | none => []
    | some pos =>
      let startPos := pos + (wide "% (.").length
      match line.findChar 41 startPos with
      | none => []
      | some endPos => WString.getlines 47 ((line.drop startPos).take (endPos - startPos))

section
variable (locale : Locale) (isPrintableFile : WString → Bool)

/-- `GetFileExtension`. -/
def getFileExtension (fileName : WString) : WString :=
  match fileName.findLast 46 with
  | none => []
  | some pos => Ulti.toLower locale (fileName.drop (pos + 1))

/-- An empty line: the result of the current file. -/
def Analysis.flush (s : Analysis) : Analysis :=
  if s.currentFile = [] then s
  else
    let actualExtension := getFileExtension locale s.currentFile
    let extensionMatched := s.foundExtensions.any fun ext => ext = actualExtension
    let result := if extensionMatched then true else isPrintableFile s.currentFile
    { s with results := s.results ++ [(s.currentFile, result)], currentFile := [] }

/-- A line in lower case. -/
def Analysis.line (s : Analysis) (line : WString) : Analysis :=
  if line = [] then s.flush locale isPrintableFile
  else if line.contains (wide "file: ") then
    { s with
      currentFile :=
        line.drop ((line.find (wide "ile: ")).getD 0 + (wide "ile: ").length)
      foundExtensions := [] }
  else if line.contains (wide "% (.") then
    { s with foundExtensions := s.foundExtensions ++ lineExtensions line }
  else s

/-- A round of the loop. -/
def Analysis.step (s : Analysis) (line : WString) : Analysis :=
  s.line locale isPrintableFile (Ulti.toLower locale (stripReturn line))

/-- `AnalyzeTridOutput`. The first five lines are skipped. -/
def analyzeTridOutput (output : WString) : List (WString × Bool) :=
  (((WString.getlines newline output).drop 5).foldl
    (Analysis.step locale isPrintableFile) {}).results

/-! ### All commands -/

/-- The output with two newlines at its end. The character in front of the last one is read without
a look at the size. -/
def addNewlines (output : WString) : Option WString :=
  let output := if output.getLast? ≠ some newline then output ++ [newline] else output
  if output.length < 2 then none
  else if output[output.length - 2]? ≠ some newline then some (output ++ [newline])
  else some output

/-- The start of a command. -/
def commandStart : WString := wide "\"" ++ TRID_PATH ++ wide "\" -n:5 "

/-- A file as an argument. -/
def argument (file : WString) : WString := wide "\"" ++ file ++ wide "\" "

/-- The local variables of `CheckTrID`, and the commands that were run. -/
structure Scan where
  tridOutput : List (WString × Bool) := []
  cmd : WString := commandStart
  commands : List WString := []

/-- `ulti::ExecCommand`: the output of a command, by the number of commands that were run before
it. -/
abbrev ExecCommand := Nat → WString → WString

variable (exec : ExecCommand)

/-- The command is run. -/
def Scan.run (s : Scan) : Option Scan :=
  let output := exec s.commands.length s.cmd
  let next : Scan := ⟨s.tridOutput, commandStart, s.commands ++ [s.cmd]⟩
  if output = [] then some next
  else
    (addNewlines output).map fun output =>
      { next with tridOutput := s.tridOutput ++ analyzeTridOutput locale isPrintableFile output }

/-- A round of the loop, for a list of `n` files. -/
def Scan.step (n : Nat) (s : Scan) (file : WString × Nat) : Option Scan :=
  let s := { s with cmd := s.cmd ++ argument file.1 }
  if s.cmd.length > 7000 ∨ file.2 = n - 1 then s.run locale isPrintableFile exec else some s

/-- `CheckTrID`. -/
def checkTrID (fileList : List WString) : Option (List (WString × Bool)) :=
  (fileList.zipIdx.foldlM (Scan.step locale isPrintableFile exec fileList.length) {}).map
    Scan.tridOutput

/-! ### The map -/

/-- The content of `trid_map`, by the hashes of the paths. -/
abbrev TridMap := UInt64 → Option Bool

variable (hash : WString → UInt64) (paths : List WString)

/-- A round of the loop that fills the map. -/
def tridMapStep (m : TridMap) (result : (WString × Bool) × Nat) : Option TridMap :=
  paths[result.2]?.map fun path => Function.update m (hash path) (some result.1.2)

/-- `trid_output` of `EvaluateProcess`. TrID is run if there are enough paths. -/
def tridOutput : Option (List (WString × Bool)) :=
  if paths.length ≥ MIN_FILE_COUNT.toNat then checkTrID locale isPrintableFile exec paths
  else some []

/-- `trid_map` of `EvaluateProcess`. -/
def tridMap : Option TridMap :=
  (tridOutput locale isPrintableFile exec paths).bind fun results =>
    results.zipIdx.foldlM (tridMapStep hash paths) fun _ => none

end

end KernelEventsTrace.EtwService.Manager
