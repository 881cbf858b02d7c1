import BitcodeReplay.Graph.Build
import BitcodeReplay.Graph.Dot
import BitcodeReplay.Pif.Load
import BitcodeReplay.Plan
import BitcodeReplay.ProductTree.Consolidate
import BitcodeReplay.Replay.Schedule
import BitcodeReplay.Transcript.Load

/-!
A run: the build log and the snapshot are read, the dependency graph is built, the commands are
replayed, and the product directories are consolidated. Nothing is written before both inputs have
been read.
-/

namespace BitcodeReplay.Pipeline

/-- What a run is asked to do. -/
structure Request where
  log : String
  archive : String
  pifCache : String
  output : Option String
  dryRun : Bool
  dumpGraph : Bool
  deriving DecidableEq, Repr

namespace Request

/-- The directory that receives the product directories. -/
def outputDir (r : Request) : String := r.output.getD (Path.join r.archive "IR")

/-- The file that the dependency graph is written to. -/
def graphPath (r : Request) : String := Path.join r.archive "graph.dot"

end Request

/-- What a run relies on: how jobs are replayed, the directory that relative paths start from, a place for
the working directories, the standard input, and what is done to the tree before the first command. -/
structure Host where
  replay : Replay.Replayer
  base : String
  scratch : String
  input : ByteArray
  repair : FileTree → FileTree

/-- Why a run fails. -/
inductive Failure where
  | log (path : String) (cause : Transcript.LoadFailure)
  | snapshot (path : String) (cause : Pif.LoadFailure)
  | graph (path : String) (cause : FileError)
  | scratch (cause : FileError)
  | replay (cause : WriteFailure)
  | consolidate (cause : WriteFailure)
  deriving DecidableEq, Repr

def Failure.message : Failure → String
  | .log path _ => "reading build log " ++ path
  | .snapshot path _ => "loading PIF cache " ++ path
  | .graph path _ => "writing dependency graph to " ++ path
  | .scratch _ => "creating scratch directory"
  | .replay _ => "replaying compiler commands"
  | .consolidate _ => "reconciling the IR output tree"

/-- What a run has done. -/
structure Report where
  buildCount : Nat
  transcriptTargets : Nat
  graphNodes : Nat
  graphDump : Option String
  tally : Replay.Tally
  consolidation : Option ProductTree.Consolidation
  products : List String
  deriving DecidableEq, Repr

/-- What is known once the inputs have been read. -/
structure Inputs where
  transcript : Transcript
  cache : Pif.Cache

namespace Inputs

/-- Reads the build log and then the snapshot. -/
def load (t : FileTree) (input : ByteArray) (r : Request) : Except Failure Inputs := do
  let transcript ← (Transcript.load t input r.log).mapError (.log r.log)
  let cache ← (Pif.Cache.load t r.pifCache).mapError (.snapshot r.pifCache)
  return ⟨transcript, cache⟩

/-- The dependency graph of the targets of the transcript. -/
def graph (i : Inputs) : Graph :=
  .build i.cache ((Plan.roots i.transcript i.cache).filterMap fun root => root.2.map (·.guid))

/-- The report of a run that stops after the graph. -/
def report (i : Inputs) (r : Request) : Report where
  buildCount := i.transcript.buildCount
  transcriptTargets := i.transcript.targets.length
  graphNodes := i.graph.size
  graphDump := if r.dumpGraph then some r.graphPath else none
  tally := .zero
  consolidation := none
  products := []

/-- Writes the graph, if that is asked for. -/
def dump (t : FileTree) (i : Inputs) (r : Request) : Except Failure FileTree :=
  if r.dumpGraph then
    (t.writeFile r.graphPath i.graph.dot.toUTF8).mapError (.graph r.graphPath)
  else .ok t

end Inputs

/-- Replays the commands and consolidates the product directories. -/
def build (h : Host) (r : Request) (i : Inputs) (t : FileTree) : FileTree × Except Failure Report :=
  let jobs := Plan.jobs i.transcript i.cache (Archive.entryNames t r.archive)
  match Replay.runJobs h.replay h.base h.scratch t (.start r.outputDir) jobs with
  | ((after, _), .error e) => (after, .error (.replay e))
  | ((replayed, p), .ok tally) =>
    let embedded := Archive.embeddedFrameworks replayed r.archive
    match ProductTree.consolidate replayed p i.graph embedded with
    | ((after, _), .error e) => (after, .error (.consolidate e))
    | ((after, q), .ok consolidation) =>
      (after, .ok { i.report r with
        tally := tally
        consolidation := some consolidation
        products := q.names })

/-- Does something with a scratch directory, which is there only meanwhile. -/
def withScratch {α : Type} (h : Host) (t : FileTree)
    (act : FileTree → FileTree × Except Failure α) : FileTree × Except Failure α :=
  match t.createDirAll h.scratch with
  | (made, .error e) => (made, .error (.scratch e))
  | (made, .ok ()) =>
    let (after, result) := act made
    match after.find? h.scratch with
    | some (loc, .dir) => (after.erase loc, result)
    | _ => (after, result)

/-- Runs what is asked for. -/
def run (h : Host) (r : Request) (t : FileTree) : FileTree × Except Failure Report :=
  match Inputs.load t h.input r with
  | .error e => (t, .error e)
  | .ok i =>
    match i.dump t r with
    | .error e => (t, .error e)
    | .ok dumped =>
      if r.dryRun then (dumped, .ok (i.report r))
      else withScratch h (h.repair dumped) (build h r i)

end BitcodeReplay.Pipeline
