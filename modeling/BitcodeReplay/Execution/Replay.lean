import BitcodeReplay.Execution.Launch
import BitcodeReplay.Replay.Crew

/-!
Replaying jobs with programs that stand in the tree: by one worker, or by several beside each other.
-/

namespace BitcodeReplay.Execution

open Shell

/-- Processes that run beside each other, with those that have been started. -/
structure Workshop where
  kernel : Kernel
  started : List Started

namespace Workshop

/-- What a process has been started as. -/
def started? (s : Workshop) (number : Nat) : Option Started :=
  s.started.find? fun p => p.number == number

/-- Whether a process has come to its end. -/
def isOver (s : Workshop) (number : Nat) (w : World) : Bool :=
  (s.started? number).all fun p => p.isOver w

/-- Runs processes on until one of some has come to its end. -/
def await (numbers : List Nat) (s : Workshop) : Workshop × Option Nat :=
  let k := s.kernel.run (fun w => numbers.any fun n => s.isOver n w) stepLimit
  ({ s with kernel := k }, numbers.find? fun n => s.isOver n k.world)

def bench : Replay.Bench Workshop where
  tree s := s.kernel.world.tree
  withTree t s := { s with kernel.world.tree := t }
  start program arguments directory s := do
    let (k, p) ← Execution.start program arguments directory s.kernel
    return (⟨k, p :: s.started⟩, p.number)
  await := await
  outcome n s := (s.started? n).elim ⟨none, .empty⟩ fun p => p.outcome s.kernel.world

end Workshop

/-- Replays jobs with so many workers. One alone does them one after the other. -/
def replay (workers : Nat) : Replay.Replayer := fun t jobs =>
  if workers ≤ 1 then Replay.replayJobs launch t jobs
  else
    let (s, tally) := Replay.Crew.replay Workshop.bench workers jobs ⟨⟨world t, []⟩, []⟩
    (reachable s.kernel.world.tree, tally)

end BitcodeReplay.Execution
