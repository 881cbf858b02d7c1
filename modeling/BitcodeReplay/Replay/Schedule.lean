import BitcodeReplay.Replay.Job

/-!
Replaying jobs. The product directory and the working directory of every job are made before the
first command runs.
-/

namespace BitcodeReplay.Replay

/-- A job with the site of its commands. -/
structure ReadyJob where
  job : Job
  site : Site
  deriving DecidableEq, Repr

/-- The working directory of the job at a place in the list. -/
def workDirectory (scratch : String) (index : Nat) (j : Job) : String :=
  Path.join scratch (toString index ++ "-" ++ j.directory)

/-- Makes the directories of jobs, from a place in the list on. -/
def prepare (base scratch : String) : Nat → FileTree → ProductTree → List Job →
    (FileTree × ProductTree) × Except WriteFailure (List ReadyJob)
  | _, t, p, [] => ((t, p), .ok [])
  | index, t, p, j :: rest =>
    match ProductTree.ensure t p j.directory j.guid with
    | (made, .error e) => ((made, p), .error e)
    | (made, .ok q) =>
      let work := workDirectory scratch index j
      match made.createDirAll work with
      | (made, .error e) => ((made, q), .error ⟨work, e⟩)
      | (made, .ok ()) =>
        match prepare base scratch (index + 1) made q rest with
        | (after, .error e) => (after, .error e)
        | (after, .ok ready) => (after, .ok (⟨j, ⟨base, work, q.path j.directory⟩⟩ :: ready))

/-- Replays jobs one after the other. -/
def replayJobs (launch : Execution.Launcher) : FileTree → List ReadyJob → FileTree × Tally
  | t, [] => (t, .zero)
  | t, r :: rest =>
    let (after, first) := replayCommands launch r.site t r.job.commands
    let (done, others) := replayJobs launch after rest
    (done, first.add others)

/-- A way to replay jobs: what becomes of the tree, and what it comes to. -/
abbrev Replayer := FileTree → List ReadyJob → FileTree × Tally

/-- Prepares jobs and replays them. -/
def runJobs (replay : Replayer) (base scratch : String) (t : FileTree) (p : ProductTree)
    (jobs : List Job) :
    (FileTree × ProductTree) × Except WriteFailure Tally :=
  match prepare base scratch 0 t p jobs with
  | (after, .error e) => (after, .error e)
  | ((made, q), .ok ready) =>
    let (done, tally) := replay made ready
    ((done, q), .ok tally)

end BitcodeReplay.Replay
