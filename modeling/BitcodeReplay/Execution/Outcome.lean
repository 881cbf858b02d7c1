import BitcodeReplay.FileTree.Resolve
import BitcodeReplay.Text.Lines
import BitcodeReplay.Text.Utf8

/-!
How processes end.
-/

namespace BitcodeReplay.Execution

/-- The code a process has left, none if a signal ended it, and all it wrote to explain itself. -/
structure Outcome where
  code : Option Nat
  stderr : ByteArray
  deriving DecidableEq

namespace Outcome

def succeeded (o : Outcome) : Bool := o.code == some 0

/-- The explanation as text, without the blanks around it. -/
def stderrText (o : Outcome) : String :=
  String.ofList (Text.trim (Utf8.decodeLossy o.stderr).toList)

end Outcome

/-- A way to run programs: what becomes of the tree when a program is run with arguments in a
directory, and how the program ends, or why it cannot be started. -/
abbrev Launcher :=
  (program : String) → (arguments : List String) → (directory : String) → FileTree →
    FileTree × Except FileError Outcome

end BitcodeReplay.Execution
