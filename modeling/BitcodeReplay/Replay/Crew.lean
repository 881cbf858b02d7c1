import BitcodeReplay.Replay.Job
import BitcodeReplay.Replay.Schedule

/-!
Replaying jobs beside each other. The workers of a crew share the list of jobs out by halves: the one
that has a share keeps the first half and leaves the second to whoever is free. Each worker takes what
it has left itself last, or else what another has left first, and does the jobs of a share one after
the other.
-/

namespace BitcodeReplay.Replay

/-- Jobs that are done by one worker, unless they are shared out further, which happens while the
number of splits is not used up. -/
structure Share where
  jobs : List ReadyJob
  splits : Nat
  deriving DecidableEq, Repr

namespace Share

/-- What a worker does of a share first, and what it leaves, the latest first. The first argument bounds
how often the share is split. -/
def part : Nat → Share → List ReadyJob × List Share
  | 0, s => (s.jobs, [])
  | bound + 1, s =>
    if s.splits = 0 || s.jobs.length < 2 then (s.jobs, [])
    else
      let middle := s.jobs.length / 2
      let (first, left) := part bound ⟨s.jobs.take middle, s.splits / 2⟩
      (first, left ++ [⟨s.jobs.drop middle, s.splits / 2⟩])

/-- A share that goes from one worker of a crew to another may be split as often as there are workers,
and once more. -/
def moved (workers : Nat) (s : Share) : Share := ⟨s.jobs, 2 * max workers (s.splits / 2)⟩

end Share

/-- A command whose compiler runs as the process `number`, and what is done after it: the commands
behind it and then other jobs. -/
structure Task where
  number : Nat
  invocation : Invocation
  site : Site
  commands : List CapturedCommand
  jobs : List ReadyJob

/-- A worker: what it waits for, and the shares that it has left, the latest first. -/
structure Worker where
  task : Option Task
  shares : List Share

/-- Programs that run beside each other in a state. They are known by numbers. -/
structure Bench (σ : Type) where
  tree : σ → FileTree
  withTree : FileTree → σ → σ
  start : (program : String) → (arguments : List String) → (directory : String) → σ →
    Except FileError (σ × Nat)
  await : List Nat → σ → σ × Option Nat
  outcome : Nat → σ → Execution.Outcome

/-- A crew at work, and what it has come to. -/
structure Crew (σ : Type) where
  state : σ
  workers : List Worker
  tally : Tally

namespace Crew

variable {σ : Type}

/-- Starts the first of some commands that can be started. The others fail. -/
def startCommands (b : Bench σ) (site : Site) (jobs : List ReadyJob) :
    List CapturedCommand → σ → σ × Tally × Option Task
  | [], s => (s, .zero, none)
  | c :: rest, s =>
    let started := match Invocation.ofCaptured c with
      | .error _ => none
      | .ok i =>
        match b.start i.program i.arguments site.work s with
        | .ok (s, n) => some (s, (⟨n, i, site, rest, jobs⟩ : Task))
        | .error _ => none
    match started with
    | some (s, task) => (s, .zero, some task)
    | none =>
      let (s, tally, task) := startCommands b site jobs rest s
      (s, (Tally.one false 0).add tally, task)

/-- Starts the first command of some jobs that can be started. -/
def startJobs (b : Bench σ) : List ReadyJob → σ → σ × Tally × Option Task
  | [], s => (s, .zero, none)
  | r :: rest, s =>
    match startCommands b r.site rest r.job.commands s with
    | (s, tally, some task) => (s, tally, some task)
    | (s, tally, none) =>
      let (s, more, task) := startJobs b rest s
      (s, tally.add more, task)

/-- Harvests what a compiler has left and goes on behind it. -/
def goOn (b : Bench σ) (task : Task) (s : σ) : σ × Tally × Option Task :=
  let (t, result) := harvest (b.tree s) task.site task.invocation
  let own := match result with
    | .ok modules => Tally.one (b.outcome task.number s).succeeded modules
    | .error _ => .one false 0
  match startCommands b task.site task.jobs task.commands (b.withTree t s) with
  | (s, tally, some next) => (s, own.add tally, some next)
  | (s, tally, none) =>
    let (s, more, next) := startJobs b task.jobs s
    (s, (own.add tally).add more, next)

/-- The first worker behind a place, in turn, that has left a share. -/
def giver? (workers : List Worker) (place : Nat) : Option Nat :=
  ((List.range workers.length).map fun i => (place + 1 + i) % workers.length).find? fun i =>
    (workers[i]?).any fun w => w.shares ≠ []

/-- The share that a worker takes next, with the workers as they are then. -/
def take? (workers : List Worker) (place : Nat) : Option (Share × List Worker) :=
  match (workers[place]?).map Worker.shares with
  | some (own :: rest) => some (own, workers.modify place fun w => { w with shares := rest })
  | _ =>
    (giver? workers place).bind fun other =>
      ((workers[other]?).bind fun w => w.shares.getLast?).map fun share =>
        (share.moved workers.length,
          workers.modify other fun w => { w with shares := w.shares.dropLast })

/-- Lets a worker that is free take shares until it has to wait. The first argument bounds the shares. -/
def occupy (b : Bench σ) (place : Nat) : Nat → Crew σ → Crew σ
  | 0, c => c
  | bound + 1, c =>
    match take? c.workers place with
    | none => c
    | some (share, workers) =>
      let (jobs, left) := share.part (share.jobs.length + 1)
      let (s, tally, task) := startJobs b jobs c.state
      let c : Crew σ :=
        ⟨s, workers.modify place fun w => ⟨task, left ++ w.shares⟩, c.tally.add tally⟩
      if task.isSome then c else occupy b place bound c

/-- Lets all that are free take shares. -/
def occupyAll (b : Bench σ) (bound : Nat) (c : Crew σ) : Crew σ :=
  (List.range c.workers.length).foldl
    (fun c place =>
      if (c.workers[place]?).any fun w => w.task.isNone then occupy b place bound c else c) c

/-- Lets the crew work until nothing is left. The first argument bounds how many compilers end, the
second how many shares one worker takes at a time. -/
def run (b : Bench σ) (shares : Nat) : Nat → Crew σ → Crew σ
  | 0, c => c
  | bound + 1, c =>
    let c := occupyAll b shares c
    match c.workers.filterMap fun w => w.task.map (·.number) with
    | [] => c
    | numbers =>
      match b.await numbers c.state with
      | (s, none) => { c with state := s }
      | (s, some number) =>
        let isIt := fun w : Worker => w.task.any fun t => t.number == number
        match c.workers.findIdx? isIt, (c.workers.find? isIt).bind (·.task) with
        | some place, some task =>
          let (s, tally, next) := goOn b task s
          run b shares bound
            ⟨s, c.workers.modify place fun w => { w with task := next }, c.tally.add tally⟩
        | _, _ => { c with state := s }

/-- Replays jobs with so many workers, from a state. -/
def replay (b : Bench σ) (workers : Nat) (jobs : List ReadyJob) (s : σ) : σ × Tally :=
  let commands := jobs.foldl (fun n r => n + r.job.commands.length) 0
  let first : Worker := ⟨none, [⟨jobs, workers⟩]⟩
  let others := List.replicate (workers - 1) (⟨none, []⟩ : Worker)
  let c := run b (jobs.length + 1) (commands + 1) ⟨s, first :: others, .zero⟩
  (c.state, c.tally)

end Crew

end BitcodeReplay.Replay
