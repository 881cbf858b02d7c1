import BitcodeReplay.Shell.Builtin.Traps
import BitcodeReplay.Shell.Fork

/-!
The builtins that work on commands in the background, apart from waiting for them.
-/

namespace BitcodeReplay.Shell.Builtin

open Act

/-- The job that a word with a percent sign names, or what is wrong. -/
def jobNamed (s : Session) (word : Octets) : Except String Job :=
  let found := fun (j : Option Job) (missing : String) => j.elim (.error missing) .ok
  let missing := "No such job: " ++ word.toText
  match word.drop 1 with
  | [] | ['%'] | ['+'] => found s.jobs.getLast? "No current job"
  | ['-'] => found s.jobs.dropLast.getLast? "No previous job"
  | text =>
    found ((Session.decimal? text).bind fun n => s.jobs.find? fun j => j.number == n) missing

/-- The line that tells of a job. -/
def jobLine (mark : String) (withProcess : Bool) (j : Job) : Octets :=
  let state := match j.status with
    | none => "Running"
    | some (.status 0) => "Done"
    | some (.status n) => "Done(" ++ toString n ++ ")"
    | some (.signal n) => String.ofList ((Signal.ending n).toList.filter (· != '\n'))
  let process := if withProcess then toString (j.processes.headD 0) ++ " " else ""
  let text := "[" ++ toString j.number ++ "] " ++ mark ++ " " ++ process ++ state
  let others := j.processes.drop 1
  let gap := List.replicate 5 ' '
  let tail := others.flatMap fun p =>
    if withProcess then Octets.ofText " |\n" ++ gap ++ .ofNat p else Octets.ofText " | "
  Octets.ofText text ++ List.replicate (max 1 (33 - text.length)) ' ' ++ tail

/-- The lines that tell of jobs, the latest first. One that has ended is forgotten when it has been
told of, so that another takes its place as the current one. -/
def jobLines (line : String → Job → Octets) (above : List Job) : List Job → List Octets
  | [] => []
  | j :: rest =>
    let mark := match above with
      | [] => "+"
      | [_] => "-"
      | _ => " "
    line mark j :: jobLines line (if j.status.isSome then above else j :: above) rest

/-- Lists the jobs. Those that have ended are then forgotten. -/
def listJobs (words : List Octets) : Act Unit := do
  match ← options "lp" words with
  | none => pure ()
  | some (given, _) =>
    setStatus 0
    modify (·.collect)
    let s ← get
    let line := fun (mark : String) (j : Job) =>
      if given.any fun p => p.1 == 'p' then .ofNat (j.processes.headD 0)
      else jobLine mark (given.any fun p => p.1 == 'l') j
    for l in jobLines line [] s.jobs.reverse do putLine l
    modify fun s => { s with jobs := s.jobs.filter fun j => j.status.isNone }

/-- Who gets a signal: a process, or all of a group. -/
inductive Recipient where
  | process (n : Nat)
  | group (n : Nat)
  deriving DecidableEq, Repr

/-- The processes that get a signal. -/
def Recipient.members (s : Session) : Recipient → List Nat
  | .process 0 | .group 0 => (s.processes.filter fun p => p.group == s.group).map (·.number)
  | .process 1 => [1]
  | .process n => (s.processes.filter fun p => p.number == n).map (·.number)
  | .group n => (s.processes.filter fun p => p.group == n).map (·.number)

/-- Sends a signal to processes. -/
def sendTo (signal : Nat) : List Octets → Act Unit
  | [] => pure ()
  | target :: rest => do
    let s ← get
    let recipient ← match target with
      | '%' :: _ =>
        match jobNamed s target with
        | .ok j => pure (some (.group (j.processes.headD 0)))
        | .error e =>
          abort e
          pure none
      | '-' :: digits => do pure ((← numberOf digits).map .group)
      | digits => do pure ((← numberOf digits).map .process)
    match recipient with
    | none => pure ()
    | some (asked : Recipient) =>
      match asked.members s with
      | [] => modify fun s => { s.complain "No such process\n" with status := 1 }
      | numbers =>
        modify fun s => { s with signals := s.signals ++ numbers.map fun n => (n, signal) }
      sendTo signal rest

def kill (words : List Octets) : Act Unit := do
  match ← killRequest words with
  | none => pure ()
  | some (.list words) => listSignals words
  | some (.send signal targets) =>
    setStatus 0
    sendTo signal targets

/-- Jobs cannot be moved where there is no terminal. -/
def move (words : List Octets) : Act Unit := do
  match jobNamed (← get) (words.headD ['%', '%']) with
  | .ok j => abort ("job " ++ toString j.number ++ " not created under job control")
  | .error e => abort e

end BitcodeReplay.Shell.Builtin
