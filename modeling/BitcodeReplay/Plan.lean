import BitcodeReplay.Archive
import BitcodeReplay.Pif.Cache
import BitcodeReplay.Replay.Job
import BitcodeReplay.Transcript.Basic

/-!
Planning: which commands of a transcript are replayed together, and into which product directory
their bitcode goes. Targets that share a directory share a job.
-/

namespace BitcodeReplay.Plan

open Replay

/-- The targets of a transcript, each with its target in the snapshot, if there is one. -/
def roots (t : Transcript) (c : Pif.Cache) : List (String × Option Pif.Target) :=
  t.targetNames.map fun name => (name, c.targetNamed? name)

/-- The directory that takes the bitcode of a target: the product as the archive has it, or else the
product's own name, or else the name of the target. -/
def directoryName (archived : List String) (t : Pif.Target) : String :=
  if t.productName = "" then t.name
  else
    (Archive.product? archived ((Path.stem? t.productName).getD t.productName)).getD t.productName

/-- The directory of a target of the transcript. -/
def rootDirectory (archived : List String) (root : String × Option Pif.Target) : String :=
  match root.2 with
  | some t => directoryName archived t
  | none => root.1

/-- Adds commands to the job of a directory, which is made at the end of the list if it is new. -/
def extendJob (directory : String) (guid : Option Pif.Guid) (commands : List CapturedCommand) :
    List Job → List Job
  | [] => [⟨directory, guid, commands⟩]
  | j :: rest =>
    if j.directory = directory then { j with commands := j.commands ++ commands } :: rest
    else j :: extendJob directory guid commands rest

/-- Adds the commands of one target of the transcript, if it has any. -/
def planRoot (t : Transcript) (archived : List String) (jobs : List Job)
    (root : String × Option Pif.Target) : List Job :=
  match t.commandsFor root.1 with
  | [] => jobs
  | commands =>
    extendJob (rootDirectory archived root) (root.2.map (·.guid)) commands jobs

/-- The jobs for a transcript. -/
def jobs (t : Transcript) (c : Pif.Cache) (archived : List String) : List Job :=
  (roots t c).foldl (planRoot t archived) []

end BitcodeReplay.Plan
