import KernelEventsTrace.Proofs.Manager.TridAlignment

/-!
# `KernelEventsTrace.Proofs.Manager.TridBatches`: the commands that are run

`CheckTrID` goes on with a command until it is too long or the files are all in it. So without its
last file no command is too long (`batchesFrom_concat`), and none is without a file.

`checkTrID_batches`: the files of the commands are the list of files, and the results are those of
the commands, both in order. An output of one character, a newline, would be read outside of its
bounds.
-/

set_option autoImplicit false

namespace KernelEventsTrace.EtwService.Manager

variable (locale : Locale) (isPrintableFile : WString → Bool) (exec : ExecCommand)

/-! ### Specification -/

/-- The results of the `n`-th command. There are none if the command has failed. -/
def commandResults (command : WString × Nat) : List (WString × Bool) :=
  if exec command.2 command.1 = [] then []
  else
    ((addNewlines (exec command.2 command.1)).map
      (analyzeTridOutput locale isPrintableFile)).getD []

/-- The commands take the files of the list in order, and each file once. -/
structure Partitions (files : List WString) (parts : List (List WString))
    (commands : List WString) : Prop where
  commands_eq : commands = parts.map command
  flatten_eq : parts.flatten = files
  part_ne : ∀ part ∈ parts, part ≠ []
  length_le : ∀ part ∈ parts, ∀ last, part.getLast? = some last →
    (command part).length ≤ 7000 + (argument last).length

/-! ### Batches -/

/-- A batch is complete as soon as it is too long. -/
theorem batchesFrom_concat (files batch : List WString) (hbatch : (command batch).length ≤ 7000) :
    ∀ part ∈ batchesFrom batch files,
      ∃ front last, part = front ++ [last] ∧ (command front).length ≤ 7000 := by
  induction files generalizing batch with
  | nil =>
    intro part hpart
    cases hpart
  | cons file files ih =>
    unfold batchesFrom
    by_cases hfull : (command (batch ++ [file])).length > 7000 ∨ files = []
    · rw [if_pos hfull]
      intro part hpart
      cases hpart with
      | head => exact ⟨batch, file, rfl, hbatch⟩
      | tail _ hpart => exact ih [] (by decide) part hpart
    · rw [if_neg hfull]
      have hshort : (command (batch ++ [file])).length ≤ 7000 :=
        Nat.le_of_not_lt fun hlong => hfull (.inl hlong)
      exact ih _ hshort

/-- The batches are the files, also if there are none. -/
theorem batchesFrom_nil_flatten (files : List WString) :
    (batchesFrom [] files).flatten = files := by
  cases files with
  | nil => rfl
  | cons file files => exact batchesFrom_flatten [] _ (List.cons_ne_nil _ _)

/-- The commands of the batches partition the files. -/
theorem partitions_batchesFrom (files : List WString) :
    Partitions files (batchesFrom [] files) ((batchesFrom [] files).map command) where
  commands_eq := rfl
  flatten_eq := batchesFrom_nil_flatten files
  part_ne := by
    intro part hpart
    obtain ⟨front, last, rfl, -⟩ := batchesFrom_concat files [] (by decide) part hpart
    exact List.append_ne_nil_of_right_ne_nil _ (List.cons_ne_nil _ _)
  length_le := by
    intro part hpart last hlast
    obtain ⟨front, last', rfl, hfront⟩ := batchesFrom_concat files [] (by decide) part hpart
    obtain rfl : last' = last := by simpa using hlast
    rw [command_concat, List.length_append]
    exact Nat.add_le_add_right hfront _

/-! ### The loop -/

variable {locale isPrintableFile exec}

/-- An output of two characters or more gets its newlines. -/
theorem addNewlines_of_two_le {output : WString} (h : 2 ≤ output.length) :
    ∃ out, addNewlines output = some out := by
  have hlen : ¬ (if output.getLast? ≠ some newline then output ++ [newline] else output).length
      < 2 := by
    split
    · rw [List.length_append]
      omega
    · omega
  unfold addNewlines
  dsimp only
  rw [if_neg hlen]
  generalize (if output.getLast? ≠ some newline then output ++ [newline] else output) = closed
  split
  · exact ⟨_, rfl⟩
  · exact ⟨_, rfl⟩

/-- A command adds its results. -/
theorem Scan.runBatch_eq {s : Scan} {batch : List WString}
    (h : exec s.commands.length (command batch) = [] ∨
      2 ≤ (exec s.commands.length (command batch)).length) :
    s.runBatch locale isPrintableFile exec batch =
      some ⟨s.tridOutput ++ commandResults locale isPrintableFile exec
        (command batch, s.commands.length), commandStart, s.commands ++ [command batch]⟩ := by
  unfold Scan.runBatch Scan.run commandResults
  dsimp only
  by_cases hempty : exec s.commands.length (command batch) = []
  · rw [if_pos hempty, if_pos hempty, List.append_nil]
  · obtain ⟨out, hout⟩ := addNewlines_of_two_le (h.resolve_left hempty)
    rw [if_neg hempty, if_neg hempty, hout]
    rfl

/-- All commands. The induction is on the batches that are left. -/
theorem foldlM_runBatch_commands (locale : Locale) (isPrintableFile : WString → Bool)
    (h : ∀ n cmd, exec n cmd = [] ∨ 2 ≤ (exec n cmd).length)
    (parts : List (List WString)) (s : Scan) :
    ∃ next, parts.foldlM (Scan.runBatch locale isPrintableFile exec) s = some next ∧
      next.commands = s.commands ++ parts.map command ∧
      next.tridOutput = s.tridOutput ++ ((parts.map command).zipIdx s.commands.length).flatMap
        (commandResults locale isPrintableFile exec) := by
  induction parts generalizing s with
  | nil => exact ⟨s, rfl, (List.append_nil _).symm, (List.append_nil _).symm⟩
  | cons batch parts ih =>
    have hrun : s.runBatch locale isPrintableFile exec batch = some _ := Scan.runBatch_eq (h _ _)
    obtain ⟨next, hnext, hcommands, houtput⟩ := ih
      ⟨s.tridOutput ++ commandResults locale isPrintableFile exec
        (command batch, s.commands.length), commandStart, s.commands ++ [command batch]⟩
    refine ⟨next, ?_, ?_, ?_⟩
    · rw [List.foldlM_cons, hrun]
      exact hnext
    · rw [hcommands, List.append_assoc]
      rfl
    · rw [houtput, List.length_append, List.map_cons, List.zipIdx_cons, List.flatMap_cons,
        List.append_assoc]
      rfl

/-- `CheckTrID` runs the commands for a partition of the files and returns their results. -/
theorem checkTrID_batches (locale : Locale) (isPrintableFile : WString → Bool)
    (exec : ExecCommand) (h : ∀ n cmd, exec n cmd = [] ∨ 2 ≤ (exec n cmd).length)
    (files : List WString) :
    ∃ s parts,
      files.zipIdx.foldlM (Scan.step locale isPrintableFile exec files.length) {} = some s ∧
      Partitions files parts s.commands ∧
      checkTrID locale isPrintableFile exec files =
        some (s.commands.zipIdx.flatMap (commandResults locale isPrintableFile exec)) := by
  obtain ⟨s, hs, hcommands, houtput⟩ :=
    foldlM_runBatch_commands locale isPrintableFile h (batchesFrom [] files) {}
  have hloop : files.zipIdx.foldlM (Scan.step locale isPrintableFile exec files.length) {} =
      some s := by
    cases files with
    | nil => exact hs
    | cons file files =>
      rw [foldlM_step _ [] (List.cons_ne_nil _ _) 0 _ (Nat.zero_add _) {} rfl, hs]
  have hparts : s.commands = (batchesFrom [] files).map command := hcommands
  refine ⟨s, batchesFrom [] files, hloop, ?_, ?_⟩
  · rw [hparts]
    exact partitions_batchesFrom files
  · unfold checkTrID
    rw [hloop, hparts]
    exact congrArg some houtput

/-- Every command prints the end of a line. -/
def printsLineEnd : ExecCommand := fun _ _ => [carriageReturn, newline]

/-- A name of 7000 characters, and a short one. -/
def longAndShort : List WString := [List.replicate 7000 97, wide "b"]

/-- A command for both is longer than its last file explains. -/
theorem length_command_longAndShort :
    7000 + (argument (wide "b")).length < (command longAndShort).length := by
  have hlong : 7000 < (argument (List.replicate 7000 97)).length := by
    simp only [argument, List.length_append, List.length_replicate]
    rw [show (wide "\"").length = 1 from rfl]
    omega
  have hfirst : 7000 < (command [List.replicate 7000 97]).length := by
    rw [← List.nil_append [List.replicate 7000 97], command_concat, List.length_append]
    omega
  calc 7000 + (argument (wide "b")).length
      < (command [List.replicate 7000 97]).length + (argument (wide "b")).length :=
        Nat.add_lt_add_right hfirst _
    _ = (command longAndShort).length := by
        rw [← List.length_append, ← command_concat]
        rfl

/-- The files do not fit into one command. -/
theorem checkTrID_batches_longAndShort :
    ∃ s parts,
      longAndShort.zipIdx.foldlM
        (Scan.step .asciiOnly (fun _ => false) printsLineEnd 2) {} = some s ∧
      parts ≠ [longAndShort] ∧
      Partitions longAndShort parts s.commands ∧
      checkTrID .asciiOnly (fun _ => false) printsLineEnd longAndShort =
        some (s.commands.zipIdx.flatMap
          (commandResults .asciiOnly (fun _ => false) printsLineEnd)) := by
  obtain ⟨s, parts, hrun, hparts, hresults⟩ :=
    checkTrID_batches .asciiOnly (fun _ => false) printsLineEnd (fun _ _ => .inr (Nat.le_refl 2))
      longAndShort
  refine ⟨s, parts, hrun, fun hone => ?_, hparts, hresults⟩
  have hle := hparts.length_le longAndShort (hone ▸ List.mem_singleton_self _) (wide "b") rfl
  exact Nat.not_lt_of_le hle length_command_longAndShort

end KernelEventsTrace.EtwService.Manager
