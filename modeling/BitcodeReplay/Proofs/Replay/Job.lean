import BitcodeReplay.Replay.Job
import BitcodeReplay.Proofs.Replay.Harvest
import Mathlib.Data.List.Forall2

/-!
Replaying the commands of a job loses no bitcode: whatever the compilers do outside the product
directory, it keeps all its files and gains exactly those that the compilers have left.
-/

namespace BitcodeReplay.Replay

open FileTree

/-- The commands of a job, each with the tree in which it is replayed. -/
def trail (launch : Execution.Launcher) (s : Site) :
    FileTree → List CapturedCommand → List (FileTree × CapturedCommand)
  | _, [] => []
  | t, c :: rest => (t, c) :: trail launch s (tallyCommand launch t s c).1 rest

/-- The command is run, its compiler ends well, and what it leaves is taken. -/
def succeeds (launch : Execution.Launcher) (s : Site) (p : FileTree × CapturedCommand) : Bool :=
  match (replayCommand launch p.1 s p.2).2 with
  | .ok (succeeded, _) => succeeded
  | .error _ => false

variable {launch : Execution.Launcher} {s : Site} {t : FileTree} {c : CapturedCommand}
  {out : Location}

theorem replayCommands_cons (launch : Execution.Launcher) (s : Site) (t : FileTree)
    (c : CapturedCommand) (rest : List CapturedCommand) : replayCommands launch s t (c :: rest) =
      ((replayCommands launch s (tallyCommand launch t s c).1 rest).1,
        (tallyCommand launch t s c).2.add
          (replayCommands launch s (tallyCommand launch t s c).1 rest).2) := rfl

/-- An empty working directory beside an empty product directory. -/
def emptyDirectories : FileTree := ⟨[(["out"], .dir), (["w"], .dir)]⟩

/-- The tree in which the file has been left. -/
def leftover : FileTree := emptyDirectories.put ["w", "a.bc"] (.file .empty false)

theorem leadsTo_out {t : FileTree} (hdir : t.get? ["out"] = some .dir) :
    t.LeadsTo "/out" maxLinks ["out"] :=
  leadsTo_of_names (by decide) ⟨by decide, by decide, by decide, by decide⟩ (by decide) hdir

end BitcodeReplay.Replay
