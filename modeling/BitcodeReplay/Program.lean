import BitcodeReplay.DanglingLinks
import BitcodeReplay.Pipeline
import BitcodeReplay.Usage

/-!
The program as a whole: what a command line does to a tree, what is written to the standard output,
and the code that is left.
-/

namespace BitcodeReplay.Program

/-- What a program leaves. -/
structure Result where
  tree : FileTree
  output : String
  code : Nat

/-- A path seen from a directory; the dash that stands for the standard input stays. -/
def absolute (base path : String) : String :=
  if path = Transcript.standardInput then path else Path.join base path

/-- What the arguments ask for. -/
def request (base : String) (a : Usage.Arguments) : Pipeline.Request where
  log := absolute base a.log
  archive := Path.join base a.archive
  pifCache := Path.join base a.pifCache
  output := a.outputPath.map (Path.join base)
  dryRun := a.dryRun
  dumpGraph := a.dumpGraph

/-- What is done before the first command: links that lead nowhere are removed, if a build directory
is given. A failure changes nothing. -/
def repair (base : String) (a : Usage.Arguments) (t : FileTree) : FileTree :=
  match a.buildCache with
  | some path => (DanglingLinks.repair t (Path.join base path)).1
  | none => t

/-- Runs a command line in a directory. Jobs are replayed by as many workers as it says, or else by
one. -/
def run (replay : Nat → Replay.Replayer) (base scratch : String) (arguments : List String)
    (input : ByteArray) (t : FileTree) : Result :=
  match Usage.parse arguments with
  | .error .help => ⟨t, Usage.helpText, 0⟩
  | .error .version => ⟨t, Usage.versionText, 0⟩
  | .error _ => ⟨t, "", 2⟩
  | .ok a =>
    match Pipeline.run ⟨replay (a.jobs.getD 1), base, scratch, input, repair base a⟩ (request base a) t with
    | (after, .ok _) => ⟨after, "", 0⟩
    | (after, .error _) => ⟨after, "", 1⟩

end BitcodeReplay.Program
