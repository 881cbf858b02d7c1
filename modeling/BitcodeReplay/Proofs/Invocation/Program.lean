import BitcodeReplay.Path
import BitcodeReplay.Proofs.Invocation
import BitcodeReplay.Proofs.Path
import BitcodeReplay.Proofs.Text.Reading
import BitcodeReplay.Proofs.Transcript.Merge

/-!
The program that a captured command starts. A line is taken for a command of a compiler if it shows a
path to that compiler, wherever it does, while the program is the first word of what is taken; so the
two agree where that word is the path, and a program that starts the compiler keeps its own name.
-/

namespace BitcodeReplay

open ShellWords

variable {k : Compiler} {w word front : List Char}

/-! ### The first word -/

/-- A path to a compiler as a line shows it: behind its directory, and with a space behind it. -/
theorem ShellWords.scan_binary (k : Compiler) (mode : Mode) (w r : List Char) :
    scan mode w ('/' :: (k.binaryName.toList ++ ' ' :: r)) =
      match mode with
      | .gap => (scan .gap [] r).map (('/' :: k.binaryName.toList) :: ·)
      | .comment => scan .comment [] r
      | .word | .escaped => (scan .gap [] r).map ((w ++ '/' :: k.binaryName.toList) :: ·)
      | .single => scan .single (w ++ '/' :: k.binaryName.toList ++ [' ']) r
      | .double => scan .double (w ++ '/' :: k.binaryName.toList ++ [' ']) r
      | .doubleEscaped =>
        scan .double (w ++ '\\' :: '/' :: k.binaryName.toList ++ [' ']) r := by
  cases k <;> cases mode <;>
    simp [scan, Compiler.binaryName, isSeparator, Mode.open, unescape]

/-- What is read as a word and ends in the name of a compiler is a path to it. -/
theorem ShellWords.Spells.endsIn (h : Spells (front ++ '/' :: k.binaryName.toList) word) :
    ∃ directory, word = directory ++ '/' :: k.binaryName.toList := by
  obtain ⟨done, mode, w, hread⟩ := scan_append .gap [] front
  have hlast : ∀ r, (scan mode w ('/' :: (k.binaryName.toList ++ ' ' :: r))).map (done ++ ·) =
      (scan .gap [] r).map (word :: ·) := by
    intro r
    rw [← hread, ← h r, List.append_assoc, List.cons_append]
  simp only [scan_binary] at hlast
  have hend := hlast []
  have hmore := hlast ['x']
  -- no quote may be open at the end, and no comment, which would take what comes next with it
  cases mode with
  | gap => exact ⟨[], by simpa [scan] using (congrArg (Option.map List.getLast?) hend).symm⟩
  | comment =>
    simp [scan, isSeparator, Mode.open] at hend hmore
    simp [hend] at hmore
  | word => exact ⟨w, by simpa [scan] using (congrArg (Option.map List.getLast?) hend).symm⟩
  | escaped => exact ⟨w, by simpa [scan] using (congrArg (Option.map List.getLast?) hend).symm⟩
  | single => simp [scan] at hend
  | double => simp [scan] at hend
  | doubleEscaped => simp [scan] at hend

theorem Path.fileName?_binary (k : Compiler) (directory : List Char) :
    Path.fileName? (String.ofList (directory ++ '/' :: k.binaryName.toList)) =
      some k.binaryName := by
  have hname : Path.IsComponent k.binaryName := by cases k <;> decide
  have hpath : String.ofList (directory ++ '/' :: k.binaryName.toList) =
      String.ofList directory ++ "/" ++ k.binaryName := by
    apply String.toList_inj.1
    simp
  rw [Path.fileName?, hpath, Path.names_append_slash, Path.names_of_isComponent hname,
    List.getLast?_concat]
  simp [hname.ne_dots]

namespace Invocation

open Transcript

/-- The program of an invocation is the first word of its command. -/
theorem program_of_spells {command : CapturedCommand} {i : Invocation} {rest : List Char}
    (hi : ofCaptured command = .ok i) (htext : command.text.toList = front ++ ' ' :: rest)
    (hfront : Spells front word) :
    i.program = String.ofList word := by
  rw [ofCaptured, ShellWords.split?, htext, hfront rest] at hi
  cases hrest : scan .gap [] rest with
  | none =>
    rw [hrest] at hi
    cases hi
  | some words =>
    rw [hrest] at hi
    obtain ⟨adapted, -, rfl⟩ := map_eq_ok hi
    rfl

/-- A command shows a path to the compiler that is recorded for it. Where its first word is written
with the name of a compiler at its end and a space behind it, however it is quoted, the program is that
compiler and the command shows a path to it; and a program that is a compiler to which the command shows
a path is the one that is recorded, if it is not clang beside a path to swiftc. -/
theorem compiler_of_program (lines : List String) (t : Transcript) (target : String)
    (command : CapturedCommand) (i : Invocation) (ht : ofLines lines = .ok t)
    (hc : command ∈ t.commandsFor target) (hi : ofCaptured command = .ok i) :
    Line.namesBinary command.text.toList i.compiler = true ∧
    (∀ (k : Compiler) (front word rest : List Char),
      command.text.toList = front ++ '/' :: k.binaryName.toList ++ ' ' :: rest →
      Spells (front ++ '/' :: k.binaryName.toList) word →
      Path.fileName? i.program = some k.binaryName ∧
        Line.namesBinary command.text.toList k = true) ∧
    ∀ k : Compiler, Path.fileName? i.program = some k.binaryName →
      Line.namesBinary command.text.toList k = true →
      (k = .clang → Line.namesBinary command.text.toList .swiftc = false) →
      Path.fileName? i.program = some i.compiler.binaryName := by
  obtain ⟨line, -, hline⟩ := exists_command?_of_mem ht hc
  obtain ⟨hshown, hfirst⟩ := Line.compiler_of_command? hline
  rw [compiler_of_ofCaptured hi]
  refine ⟨hshown, fun k front word rest htext hspells => ?_, fun k hprogram hk hnot => ?_⟩
  · obtain ⟨directory, rfl⟩ := hspells.endsIn
    refine ⟨?_, ?_⟩
    · rw [program_of_spells hi htext hspells, Path.fileName?_binary]
    · refine Text.holds_eq_true_iff.2 ⟨front, rest, ?_⟩
      rw [htext]
      simp
  · have hsame : command.compiler = k := by
      cases k with
      | swiftc => exact hfirst hk
      | clang =>
        cases hother : command.compiler with
        | clang => rfl
        | swiftc =>
          rw [hother, hnot rfl] at hshown
          cases hshown
    rw [hsame, hprogram]

/-- A log of one target and one command. -/
def logOf (command : String) : List String :=
  ["CompileC /o/a.o /s/a.m normal arm64 objective-c (in target 'A' from project 'P')",
    "    " ++ command]

/-- A program that starts the compiler is no compiler itself. -/
theorem launcher_is_no_compiler :
    ¬ ∀ (lines : List String) (t : Transcript) (target : String) (command : CapturedCommand)
      (i : Invocation), ofLines lines = .ok t → command ∈ t.commandsFor target →
      ofCaptured command = .ok i → Path.fileName? i.program = some i.compiler.binaryName := by
  intro h
  have hname := h (logOf "/usr/bin/env /usr/bin/clang -c /s/a.m")
    ⟨[("A", [⟨"/usr/bin/env /usr/bin/clang -c /s/a.m", .clang⟩])], 0⟩ "A"
    ⟨"/usr/bin/env /usr/bin/clang -c /s/a.m", .clang⟩
    ⟨"/usr/bin/env", ["/usr/bin/clang", "-c", "/s/a.m", "-save-temps=cwd"], .clang, none⟩
    (by decide) (by decide) (by decide)
  exact absurd hname (by decide)

theorem compiler_of_program_spaced :
    ofLines (logOf "/opt/Xcode\\ 12/clang -c /s/a.m") =
      .ok ⟨[("A", [⟨"/opt/Xcode\\ 12/clang -c /s/a.m", .clang⟩])], 0⟩ ∧
    ofCaptured ⟨"/opt/Xcode\\ 12/clang -c /s/a.m", .clang⟩ =
      .ok ⟨"/opt/Xcode 12/clang", ["-c", "/s/a.m", "-save-temps=cwd"], .clang, none⟩ ∧
    Path.fileName? "/opt/Xcode 12/clang" = some Compiler.clang.binaryName := by
  have hlog : ofLines (logOf "/opt/Xcode\\ 12/clang -c /s/a.m") =
      .ok ⟨[("A", [⟨"/opt/Xcode\\ 12/clang -c /s/a.m", .clang⟩])], 0⟩ := by decide
  have hmade : ofCaptured ⟨"/opt/Xcode\\ 12/clang -c /s/a.m", .clang⟩ =
      .ok ⟨"/opt/Xcode 12/clang", ["-c", "/s/a.m", "-save-temps=cwd"], .clang, none⟩ := by decide
  obtain ⟨-, hspelled, hrecorded⟩ := compiler_of_program _ _ "A" _ _ hlog (by decide) hmade
  have hspells : Spells ("/opt/Xcode\\ 12".toList ++ '/' :: Compiler.clang.binaryName.toList)
      "/opt/Xcode 12/clang".toList := fun r => rfl
  obtain ⟨hname, hshown⟩ := hspelled .clang _ _ "-c /s/a.m".toList (by decide) hspells
  exact ⟨hlog, hmade, hrecorded .clang hname hshown fun _ => by decide⟩

end Invocation

end BitcodeReplay
