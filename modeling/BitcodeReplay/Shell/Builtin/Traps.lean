import BitcodeReplay.Shell.Builtin.Flow
import BitcodeReplay.Shell.Session
import BitcodeReplay.Shell.Signal

/-!
The builtins that work on signals: what is to be run when one comes, and sending them.
-/

namespace BitcodeReplay.Shell.Builtin

open Act

/-- Sets or clears what a signal runs. -/
def setTrap (action : Option Octets) (n : Nat) (s : Session) : Session :=
  { s with
    traps := (action.map fun a => (n, a)).toList ++ s.traps.filter fun p => p.1 != n }

def setTraps (action : Option Octets) : List Octets → Act Unit
  | [] => pure ()
  | name :: rest => do
    match Signal.number? 0 name with
    | some n =>
      modify (setTrap action n)
      setTraps action rest
    | none =>
      modify fun s =>
        { s.report (Octets.ofText ("trap: " ++ name.toText ++ ": bad trap\n")) with status := 1 }

/-- Lists what signals run, or sets it. A single word, or a number in front, clears it. -/
def trap (words : List Octets) : Act Unit := do
  match ← operands words with
  | none => pure ()
  | some [] =>
    setStatus 0
    for (n, action) in (← get).traps.mergeSort fun a b => a.1 ≤ b.1 do
      putLine (Octets.ofText "trap -- " ++ Listing.quoted action ++
        Octets.ofText (" " ++ Signal.name n))
  | some (first :: rest) =>
    setStatus 0
    let isNumber := (Session.decimal? first).any (· < Signal.bound)
    if rest = [] || isNumber then setTraps none (first :: rest)
    else setTraps (if first = ['-'] then none else some first) rest

def killUsage : String :=
  "Usage: kill [-s sigspec | -signum | -sigspec] [pid | job]... or\nkill -l [exitstatus]"

/-- What the words of `kill` ask for: a signal and the processes, or the names of signals. -/
inductive KillRequest where
  | send (signal : Nat) (targets : List Octets)
  | list (words : List Octets)

/-- Reads the words of `kill`. -/
def killRequest (words : List Octets) : Act (Option KillRequest) := do
  match words with
  | [] =>
    abort killUsage
    return none
  | ('-' :: name) :: rest =>
    let (signal, isList, targets) ← match Signal.number? 1 name with
      | some n => pure (some n, false, rest)
      | none =>
        match ← options "ls:" words with
        | none => return none
        | some (given, operands) =>
          let mut signal := none
          let mut isList := false
          for (letter, argument) in given do
            if letter = 'l' then isList := true
            else
              match Signal.number? 1 argument with
              | some n => signal := some n
              | none =>
                abort ("invalid signal number or name: " ++ argument.toText)
                return none
          pure (signal, isList, operands)
    if isList then
      if signal.isSome then
        abort killUsage
        return none
      return some (.list targets)
    else if targets = [] then
      abort killUsage
      return none
    else return some (.send (signal.getD Signal.terminate) targets)
  | targets => return some (.send Signal.terminate targets)

/-- Lists the names of all signals, or tells the one that a number stands for. -/
def listSignals (words : List Octets) : Act Unit := do
  match words with
  | [] =>
    setStatus 0
    for name in "0" :: Signal.names.drop 1 do
      putLine (Octets.ofText name)
  | word :: _ =>
    match ← numberOf word with
    | none => pure ()
    | some n =>
      let n := if 128 < n then n - 128 else n
      if 0 < n && n < Signal.bound then
        setStatus 0
        putLine (Octets.ofText (Signal.name n))
      else abort ("invalid signal number or exit status: " ++ word.toText)

end BitcodeReplay.Shell.Builtin
