import BitcodeReplay.Execution.Outcome
import BitcodeReplay.Replay.Harvest

/-!
Replaying the commands of a job. A command is compiled and then harvested, whether the compiler has
succeeded or not; a command that fails is counted and the next one follows.
-/

namespace BitcodeReplay.Replay

/-- Commands whose bitcode goes into one product directory, with the target they belong to, where
that is known. -/
structure Job where
  directory : String
  guid : Option Pif.Guid
  commands : List CapturedCommand
  deriving DecidableEq, Repr

/-- What replaying has come to: commands replayed, those of them that failed, and files taken. -/
structure Tally where
  commands : Nat
  failed : Nat
  modules : Nat
  deriving DecidableEq, Repr

namespace Tally

def zero : Tally := ⟨0, 0, 0⟩

def add (a b : Tally) : Tally :=
  ⟨a.commands + b.commands, a.failed + b.failed, a.modules + b.modules⟩

/-- The tally of one command. -/
def one (succeeded : Bool) (modules : Nat) : Tally := ⟨1, if succeeded then 0 else 1, modules⟩

end Tally

/-- Why a command gives no bitcode. -/
inductive CommandFailure where
  | invocation (cause : Invocation.Failure)
  | start (program : String) (cause : FileError)
  | harvest (cause : HarvestFailure)
  deriving DecidableEq

/-- Runs the compiler of a command for its bitcode. -/
def compile (launch : Execution.Launcher) (t : FileTree) (s : Site) (c : CapturedCommand) :
    FileTree × Except CommandFailure (Invocation × Execution.Outcome) :=
  match Invocation.ofCaptured c with
  | .error e => (t, .error (.invocation e))
  | .ok i =>
    match launch i.program i.arguments s.work t with
    | (after, .ok outcome) => (after, .ok (i, outcome))
    | (after, .error e) => (after, .error (.start i.program e))

/-- Replays a command: whether its compiler succeeded, and how many files were taken. -/
def replayCommand (launch : Execution.Launcher) (t : FileTree) (s : Site) (c : CapturedCommand) :
    FileTree × Except CommandFailure (Bool × Nat) :=
  match compile launch t s c with
  | (after, .error e) => (after, .error e)
  | (compiled, .ok (i, outcome)) =>
    match harvest compiled s i with
    | (after, .error e) => (after, .error (.harvest e))
    | (after, .ok modules) => (after, .ok (outcome.succeeded, modules))

/-- Replays a command and tallies it. -/
def tallyCommand (launch : Execution.Launcher) (t : FileTree) (s : Site) (c : CapturedCommand) :
    FileTree × Tally :=
  match replayCommand launch t s c with
  | (after, .ok (succeeded, modules)) => (after, .one succeeded modules)
  | (after, .error _) => (after, .one false 0)

/-- Replays commands one after the other. -/
def replayCommands (launch : Execution.Launcher) (s : Site) : FileTree → List CapturedCommand →
    FileTree × Tally
  | t, [] => (t, .zero)
  | t, c :: rest =>
    let (after, first) := tallyCommand launch t s c
    let (done, others) := replayCommands launch s after rest
    (done, first.add others)

end BitcodeReplay.Replay
