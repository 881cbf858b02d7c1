import BitcodeReplay.Execution.Outcome
import BitcodeReplay.Shell.Kernel
import BitcodeReplay.Shell.Run

/-!
Running programs that stand in the tree: scripts, and programs of the system. A program has come to
its end when its process has ended and nobody is left who could write to its output.
-/

namespace BitcodeReplay.Execution

open Shell

/-- The number of the process that starts programs. -/
def starterNumber : Nat := 2

/-- The variables that a process is given. -/
def environment (directory : String) : List (Octets × Variable) :=
  [("HOME", "/root"), ("PATH", Image.searchPath), ("PWD", directory)].map fun p =>
    (p.1.toList, ⟨some (Octets.ofText p.2), true, false⟩)

/-- What processes share before the first of them starts. -/
def world (t : FileTree) : World where
  tree := t
  modes := []
  times := []
  twins := []
  pipePlaces := []
  streams := #[]
  pipes := #[]
  clock := 1700000000000000
  processes := []
  count := starterNumber
  signals := []
  hidden := 0
  endings := 0
  starved := false

/-- The state in which a process starts. -/
def context (directory : String) (number : Nat) (channels : List (Nat × Nat)) : Context where
  directory := directory
  logical := directory
  name := []
  arguments := []
  bindings := environment directory
  functions := []
  locals := none
  outerOptions := none
  aliases := []
  documents := #[]
  traps := []
  deaf := []
  channels := channels
  aside := []
  ticks := 0
  options := []
  umask := 0o022
  limits := []
  process := number
  root := number
  lastJob := none
  builtin := none
  line := 0
  status := 0
  substituted := none
  tracked := []
  optionIndex := 1
  optionOffset := none
  flow := .running
  loops := 0
  calls := 0
  handlers := 0
  leaving := none
  failed := none

/-- More steps than any compiler stand-in takes. -/
def stepLimit : Nat := 10000000

/-- A program that has been started: its process, and the pipes that take its output and its
messages. -/
structure Started where
  number : Nat
  output : Nat
  messages : Nat
  deriving DecidableEq, Repr

namespace Started

def isOver (p : Started) (w : World) : Bool :=
  w.hasEnded p.number && w.isOver p.output && w.isOver p.messages

/-- How a program has ended. One that has not has left no code. -/
def outcome (p : Started) (w : World) : Outcome where
  code :=
    match w.ending? p.number with
    | some (.status n) => if w.starved then none else some n
    | _ => none
  stderr := (w.pipes[p.messages]?).elim .empty (·.content)

end Started

def hasNul (text : String) : Bool := text.toList.contains '\x00'

/-- The directory that a path leads to, without links. -/
def directoryAt (t : FileTree) (path : String) : Except FileError String := do
  match ← t.resolve true path with
  | .free _ => throw .notFound
  | .found loc .dir => return "/" ++ String.intercalate "/" loc
  | .found _ _ => throw .notADirectory

/-- A process that becomes a program. It has nothing to read, and all that it writes is kept. -/
def spawn (path : String) (program : String) (arguments : List String) (directory : String)
    (k : Kernel) : Kernel × Started :=
  let n := k.world.count + 1
  let (w, output, _) := k.world.openPipe .empty
  let (w, messages, _) := w.openPipe .empty
  let (w, input) := w.openStream (Session.streamOn .null .read)
  let pipes := (w.pipes.size - 2, w.pipes.size - 1)
  let kept := fun p : Pipe => { p with kept := true }
  let w := { w with
    pipes := (w.pipes.modify pipes.1 kept).modify pipes.2 kept
    count := n
    processes := w.processes ++
      [⟨n, starterNumber, n, [input, output, messages], [], [], false, none⟩] }
  let act : Act Unit := do
    let _ ← startPath stepLimit (Octets.ofText program) (Octets.ofText path)
      (arguments.map Octets.ofText)
  let start := fun w : World =>
    (act ⟨w, context directory n [(0, input), (1, output), (2, messages)], []⟩).thread
  (⟨w, k.strands ++ [⟨n, ⟨fun _ => true, none, false⟩, start⟩]⟩, ⟨n, pipes.1, pipes.2⟩)

/-- Starts a program in a directory, if that can be done. -/
def start (program : String) (arguments : List String) (directory : String) (k : Kernel) :
    Except FileError (Kernel × Started) := do
  let t := k.world.tree
  if hasNul program || arguments.any hasNul || hasNul directory then throw .invalidInput
  let directory ← directoryAt t directory
  if program = "" then throw .notFound
  let path ← Image.find t directory Image.searchPath program
  let _ ← Image.start t directory Image.maxInterpreters (Octets.ofText program)
    (Octets.ofText path) (arguments.map Octets.ofText)
  return spawn path program arguments directory k

/-- A tree without what no path leads to. -/
def reachable (t : FileTree) : FileTree := t.erase [""]

/-- Runs a program in a directory. What it has left running is not run on. -/
def launch : Launcher := fun program arguments directory t =>
  match start program arguments directory ⟨world t, []⟩ with
  | .error e => (t, .error e)
  | .ok (k, p) =>
    let k := k.run p.isOver stepLimit
    (reachable k.world.tree, .ok (p.outcome k.world))

end BitcodeReplay.Execution
