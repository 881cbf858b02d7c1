import BitcodeReplay.Shell.Builtin.Flow
import BitcodeReplay.Shell.Builtin.Jobs
import BitcodeReplay.Shell.Builtin.Places
import BitcodeReplay.Shell.Builtin.Programs
import BitcodeReplay.Shell.Builtin.Variables
import BitcodeReplay.Shell.Condition
import BitcodeReplay.Shell.Format
import BitcodeReplay.Shell.OptionWords

/-!
The builtins by their names, apart from those that run other commands. Those that write text, decide
conditions or set limits are here.
-/

namespace BitcodeReplay.Shell.Builtin

open Act

/-! ### Text and conditions -/

def echo (words : List Octets) : Act Unit := do
  setStatus 0
  put (Format.echo words)

/-- What a complaint of `printf` says. -/
def formatMessage : Format.Complaint → String
  | .notANumber text => text.toText ++ ": expected numeric value"
  | .halfANumber text => text.toText ++ ": not completely converted"
  | .outOfRange text => text.toText ++ ": Numerical result out of range"
  | .invalidDirective text => text.toText ++ ": invalid directive"
  | .missingLetter => "missing format character"
  | .surplus _ => ""

/-- Complaints come before the output. One of the format ends it. -/
def printf (words : List Octets) : Act Unit := do
  match ← operands words with
  | none => pure ()
  | some [] => abort "usage: printf format [arg ...]"
  | some (format :: arguments) =>
    setStatus 0
    let (output, complaints) := Format.printf .builtin format arguments
    for (_, c) in complaints do
      match c with
      | .surplus _ => pure ()
      | .invalidDirective _ | .missingLetter => complain 2 (formatMessage c)
      | _ => complain 1 (formatMessage c)
    put output

/-- Decides a condition, and says so by the status. -/
def condition (words : List Octets) : Act Unit := do
  match Condition.holds (← get) words with
  | .ok answer => setStatus (if answer then 0 else 1)
  | .error e => abort e.message

def bracket (words : List Octets) : Act Unit := do
  if words.getLast? = some [']'] then condition words.dropLast else abort "missing ]"

/-! ### How much processes may use -/

/-- A limit: its letter, what it is called, and its size at the start; nothing if there is none. -/
structure Limit where
  letter : Char
  name : String
  size : Option Nat

def limits : List Limit :=
  [⟨'t', "time(seconds)", none⟩, ⟨'f', "file(blocks)", none⟩, ⟨'d', "data(kbytes)", none⟩,
    ⟨'s', "stack(kbytes)", some 8192⟩, ⟨'c', "coredump(blocks)", some 0⟩,
    ⟨'m', "memory(kbytes)", none⟩, ⟨'l', "locked memory(kbytes)", some 8192⟩,
    ⟨'p', "process", none⟩, ⟨'n', "nofiles", some 1048576⟩, ⟨'v', "vmemory(kbytes)", none⟩,
    ⟨'w', "locks", none⟩, ⟨'r', "rtprio", some 0⟩]

def limitText (size : Option Nat) : Octets := (size.map Octets.ofNat).getD (Octets.ofText "unlimited")

/-- The size of a limit as it is now. -/
def Limit.sizeIn (l : Limit) (s : Session) : Option Nat := (s.limits.lookup l.letter).getD l.size

/-- Shows a limit, or all, or sets one. -/
def limit (words : List Octets) : Act Unit := do
  match ← options "HSatfdscmlpnvwr" words with
  | none => pure ()
  | some (given, operands) =>
    setStatus 0
    let s ← get
    let letters := given.map fun p => p.1
    let chosen := ((letters.filter fun c => limits.any fun l => l.letter == c).getLast?).getD 'f'
    let size := fun l : Limit => if letters.contains 'H' && l.letter != 's' then l.size else l.sizeIn s
    match operands with
    | _ :: _ :: _ => abort "too many arguments"
    | [] =>
      if letters.contains 'a' then
        for l in limits do
          putLine (Octets.ofText (l.name ++ String.ofList (List.replicate (20 - l.name.length) ' ') ++
            " ") ++ limitText (size l))
      else
        for l in limits do
          if l.letter = chosen then putLine (limitText (size l))
    | [word] =>
      if letters.contains 'a' then abort "too many arguments"
      else if word = "unlimited".toList then
        set { s with limits := (chosen, none) :: s.limits.filter fun p => p.1 != chosen }
      else if word.all Text.isDigit then
        let n := (Session.decimal? word).getD 0
        set { s with limits := (chosen, some n) :: s.limits.filter fun p => p.1 != chosen }
      else abort "bad number"

/-! ### Names -/

def named? (name : Octets) : Option (List Octets → Act Unit) :=
  match String.ofList name with
  | ":" | "true" => some fun _ => setStatus 0
  | "false" => some fun _ => setStatus 1
  | "break" => some (leaveLoop .breaking)
  | "continue" => some (leaveLoop .continuing)
  | "exit" => some leaveShell
  | "return" => some leaveFunction
  | "shift" => some shift
  | "times" => some fun _ => times
  | "export" => some exportNames
  | "readonly" => some makeConstant
  | "local" => some makeLocal
  | "unset" => some unset
  | "set" => some setOptions
  | "read" => some readLine
  | "getopts" => some getOption
  | "cd" | "chdir" => some changeDirectory
  | "pwd" => some printDirectory
  | "umask" => some maskFiles
  | "alias" => some defineAliases
  | "unalias" => some removeAliases
  | "trap" => some trap
  | "kill" => some kill
  | "jobs" => some listJobs
  | "fg" | "bg" => some move
  | "command" => some commandOf
  | "type" => some typeOf
  | "hash" => some hash
  | "ulimit" => some limit
  | "echo" => some echo
  | "printf" => some printf
  | "test" => some condition
  | "[" => some bracket
  | _ => none

end BitcodeReplay.Shell.Builtin
