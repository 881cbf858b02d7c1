import BitcodeReplay.Shell.Arithmetic
import BitcodeReplay.Shell.Script
import BitcodeReplay.Shell.World

/-!
The state of a running shell: what it shares with other processes, and its own parameters, options
and channels; and how it lists what it knows, so that it could read it again.
-/

namespace BitcodeReplay.Shell

/-- What happens after the current command. A flow that is failing ends the shell unless a builtin
that may fail stands around it. -/
inductive Flow where
  | running
  | exiting
  | failing
  | returning
  | breaking (levels : Nat)
  | continuing (levels : Nat)
  | killed (signal : Nat)
  | starved
  deriving DecidableEq, Repr

/-- A variable without a value is only marked. -/
structure Variable where
  value : Option Octets
  exported : Bool
  constant : Bool
  deriving DecidableEq, Repr

/-- What belongs to one process. `locals` are the variables that names had outside the current
function, none outside of functions; `outerOptions` are the options there, if they are to come back.
`loops` counts the loops around the current command, `calls` the functions and `handlers` the traps that are
being run,
`root` is the number of the shell that a subshell belongs to, `builtin` is the command that
complains, `substituted` is the status of the last command whose output went into the current one, `tracked` are
the programs that have been looked up, `leaving` is the status that an `exit` without a number leaves
while a trap runs, `deaf` are the signals that have been ignored since the process started, `limits` are those that
have been set, `aside` are streams that are kept for later, `ticks` counts the commands since others
have had a turn, and
`documents` are those that scripts hold. The next option
stands in the argument of number `optionIndex`, or in the one before it behind `optionOffset`
characters. -/
structure Context where
  directory : String
  logical : String
  name : Octets
  arguments : List Octets
  bindings : List (Octets × Variable)
  functions : List (Octets × Nat × Command)
  locals : Option (List (Octets × Option Variable))
  outerOptions : Option Octets
  aliases : List (Octets × Octets)
  documents : Array Word
  traps : List (Nat × Octets)
  deaf : List Nat
  channels : List (Nat × Nat)
  aside : List Nat
  ticks : Nat
  options : Octets
  umask : Nat
  limits : List (Char × Option Nat)
  process : Nat
  root : Nat
  lastJob : Option Nat
  builtin : Option Octets
  line : Nat
  status : Nat
  substituted : Option Nat
  tracked : List (Octets × Octets)
  optionIndex : Nat
  optionOffset : Option Nat
  flow : Flow
  loops : Nat
  calls : Nat
  handlers : Nat
  leaving : Option Nat
  failed : Option StreamFailure

/-- A command that runs in the background, under the number by which its shell knows it. It may have
several processes; its status is that of the main one, and is known when the shell has found all of
them ended. `waited` says that it has been asked for. -/
structure Job where
  number : Nat
  process : Nat
  processes : List Nat
  status : Option Ending
  waited : Bool
  deriving DecidableEq, Repr

/-- Whether the number of a job may go to another. -/
def Job.isSpent (j : Job) : Bool := j.status.isSome && j.waited

structure Session extends World, Context where
  jobs : List Job

namespace Session

def octets (text : String) : Octets := Octets.ofText text

/-- The path a word names; the empty word names nothing. -/
def place (s : Session) (path : Octets) : String :=
  if path = [] then "" else Path.join s.directory path.toText

def has (s : Session) (option : Char) : Bool := s.options.contains option

/-- Changes what processes share. -/
def modifyWorld (s : Session) (f : World → World) : Session := { s with toWorld := f s.toWorld }

/-- The streams that a process holds. -/
def held (s : Session) : List Nat := s.channels.map (·.2) ++ s.aside

/-- Whether nobody reads what goes into a pipe. -/
def isUnread (s : Session) (pipe : Nat) : Bool :=
  !s.toWorld.isHeld pipe true s.held &&
    !((s.pipes[pipe]?).any (·.kept) ||
      s.processes.any fun p => p.number != s.process && s.toWorld.isHeld pipe true p.streams)

/-- The signals that a process does not hear. -/
def unheard (s : Session) : List Nat :=
  (s.traps.filter fun p => p.2.isEmpty).map (·.1) ++ s.deaf

/-- Notes that something could not be written; the first reason is kept. -/
def failWriting (s : Session) (e : StreamFailure) : Session :=
  { s with failed := s.failed <|> some e }

/-- What becomes of a writer that nobody reads from: it is ended, unless it does not hear of that or
takes the signal. -/
def breakPipe (s : Session) : Session :=
  if s.unheard.contains 13 then s.failWriting .brokenPipe
  else if s.traps.any fun p => p.1 == 13 then
    { s with signals := s.signals ++ [(s.process, 13)] }.failWriting .brokenPipe
  else { s with flow := if s.flow = .running then .killed 13 else s.flow }

/-- Writes to a stream; what cannot be written is dropped. -/
def writeStream (s : Session) (stream : Nat) (text : Octets) : Session :=
  if text ≠ [] && (s.toWorld.pipeOf? stream).any s.isUnread then s.breakPipe
  else
    match s.toWorld.write stream text with
    | .ok w => { s with toWorld := w }
    | .error e => s.failWriting e

/-- Writes to a channel. -/
def write (s : Session) (channel : Nat) (text : Octets) : Session :=
  match s.channels.lookup channel with
  | none =>
    if text = [] then s else s.failWriting .badDescriptor
  | some stream => s.writeStream stream text

/-- Writes a message, which may well be lost. -/
def report (s : Session) (text : Octets) : Session :=
  let known := s.failed
  { s.write 2 text with failed := known }

/-- The lowest number that is free for a job. A spent job gives its number up. -/
def freeNumber (s : Session) : Session × Nat :=
  let isFree := fun n : Nat => s.jobs.all fun j => j.number != n || j.isSpent
  let n := ((List.range (s.jobs.length + 1)).find? fun n => isFree (n + 1)).getD s.jobs.length + 1
  ({ s with jobs := s.jobs.filter fun j => j.number != n }, n)

/-- Leads a channel number to a stream, or nowhere. -/
def lead (s : Session) (channel : Nat) (stream : Option Nat) : Session :=
  { s with channels := (stream.map fun n => (channel, n)).toList ++
      s.channels.filter fun p => p.1 != channel }

/-- Leads a channel number to a new stream. -/
def connect (s : Session) (channel : Nat) (stream : Stream) : Session :=
  let (w, n) := s.toWorld.openStream stream
  { s with toWorld := w }.lead channel (some n)

/-- Opens a pipe with some content on a channel. -/
def feed (s : Session) (channel : Nat) (content : Octets) : Session :=
  let (w, _, n) := s.toWorld.openPipe content.toBytes
  { s with toWorld := w }.lead channel (some n)

/-- What can be read from a channel. -/
def pending (s : Session) (channel : Nat) : Except StreamFailure Octets :=
  match s.channels.lookup channel with
  | some n => s.toWorld.pending n
  | none => .error .badDescriptor

/-- Goes on behind some bytes of a channel. -/
def skip (s : Session) (channel count : Nat) : Session :=
  match s.channels.lookup channel with
  | some n => { s with toWorld := s.toWorld.skip n count }
  | none => s

/-- The next bytes of a channel, at most as many as given. -/
def peek (s : Session) (channel count : Nat) : Octets :=
  match s.channels.lookup channel with
  | some n => s.toWorld.peek n count
  | none => []

/-- The next lines of a channel, at most as many as given. -/
def peekLines (s : Session) (channel count : Nat) : Octets :=
  match s.channels.lookup channel with
  | some n => s.toWorld.peekLines n count
  | none => []

def bound? (s : Session) (name : Octets) : Option Variable := s.bindings.lookup name

def named (s : Session) (name : String) : Option Octets :=
  (s.bound? name.toList).bind (·.value)

/-- Puts a variable in the place of one of its name, or behind all others. -/
def putBinding (name : Octets) (v : Variable) :
    List (Octets × Variable) → List (Octets × Variable)
  | [] => [(name, v)]
  | (n, known) :: rest => if n = name then (n, v) :: rest else (n, known) :: putBinding name v rest

/-- Gives a name a variable, or none. -/
def bind (s : Session) (name : Octets) (v : Option Variable) : Session :=
  { s with bindings :=
      match v with
      | some v => putBinding name v s.bindings
      | none => s.bindings.filter fun p => p.1 != name }

/-- A message of the shell itself, with the builtin that complains. -/
def complain (s : Session) (text : String) : Session :=
  let asker := (s.builtin.map fun b => b ++ octets ": ").getD []
  s.report (s.name ++ octets (": " ++ toString s.line ++ ": ") ++ asker ++ octets (text ++ "\n"))

/-- A failure that ends the shell. -/
def abort (s : Session) (text : String) : Session :=
  if s.flow = .running then { s.complain text with status := 2, flow := .failing } else s

/-- The number that some digits write, if they are nothing else. -/
def decimal? (text : Octets) : Option Nat :=
  if text ≠ [] ∧ text.all Char.isDigit then (String.ofList text).toNat? else none

/-- The count that a word writes, with blanks around it. -/
def count? (text : Octets) : Option Nat :=
  match Arithmetic.decimalValue? text with
  | some n => if 0 ≤ n && n < 2147483648 then some n.toNat else none
  | none => none

/-- Gives a variable a value. A constant refuses that, and the number of the next option has to be a
number. -/
def assign (s : Session) (name value : Octets) : Session :=
  let known := (s.bound? name).getD ⟨none, false, false⟩
  if known.constant then s.abort (name.toText ++ ": is read only")
  else
    let s := s.bind name (some { known with
      value := some value, exported := known.exported || s.has 'a' })
    if name = "OPTIND".toList then
      match count? value with
      | some n => { s with optionIndex := max n 1, optionOffset := none }
      | none => s.abort ("Illegal number: " ++ value.toText)
    else if name = "PATH".toList then { s with tracked := [] }
    else s

/-- Marks a variable, whether it has a value or not. -/
def mark (s : Session) (name : Octets) (change : Variable → Variable) : Session :=
  s.bind name (some (change ((s.bound? name).getD ⟨none, false, false⟩)))

def unset (s : Session) (name : Octets) : Session :=
  if (s.bound? name).any (·.constant) then s.abort (name.toText ++ ": is read only")
  else s.bind name none

/-- The characters at which the results of expansions are split. -/
def separators (s : Session) : Octets := (s.named "IFS").getD [' ', '\t', '\n']

/-- The letters of all options in the order in which they are listed. -/
def optionLetters : Octets := "efIimnsxvVECabup".toList

/-- The value of a parameter, if it has one. -/
def value? (s : Session) (name : Octets) : Option Octets :=
  match name with
  | ['?'] => some (.ofNat s.status)
  | ['#'] => some (.ofNat s.arguments.length)
  | ['$'] => some (.ofNat s.root)
  | ['!'] => s.lastJob.map .ofNat
  | ['-'] => some (optionLetters.reverse.filter s.has)
  | ['@'] | ['*'] =>
    if s.arguments = [] then none
    else some (List.intercalate (s.separators.take 1) s.arguments)
  | _ =>
    match decimal? name with
    | some 0 => some s.name
    | some (n + 1) => s.arguments[n]?
    | none => (s.bound? name).bind (·.value)

/-- What a path leads to. -/
def placeOf (s : Session) (follow : Bool) (path : Octets) : Except FileError Place :=
  s.tree.resolve follow (s.place path)

/-- The entry at a path. -/
def entryAt (s : Session) (follow : Bool) (path : Octets) : Option (Location × Entry) :=
  match s.placeOf follow path with
  | .ok (.found loc e) => some (loc, e)
  | _ => none

end Session

/-- The wording of a failed operation on files. -/
def errorText : FileError → String
  | .notFound => "No such file or directory"
  | .alreadyExists => "File exists"
  | .notADirectory => "Not a directory"
  | .isADirectory => "Is a directory"
  | .permissionDenied => "Permission denied"
  | .invalidData | .invalidInput => "Invalid argument"
  | .notEmpty => "Directory not empty"
  | .tooManyLinks => "Too many levels of symbolic links"
  | .notExecutable => "Exec format error"
  | .nameTooLong => "File name too long"
  | .noSpace => "No space left on device"
  | .noDevice => "No such device or address"

end BitcodeReplay.Shell

namespace BitcodeReplay.Shell.Listing

/-- A text in single quotes. Quotes in it stand between double ones. -/
def quotedFrom (bound : Nat) (text : Octets) : Octets :=
  match bound with
  | 0 => []
  | bound + 1 =>
    let plain := text.takeWhile (· != '\'')
    let rest := text.drop plain.length
    let quotes := rest.takeWhile (· == '\'')
    let behind := rest.drop quotes.length
    let more := if behind = [] then [] else quotedFrom bound behind
    '\'' :: plain ++ ['\''] ++ (if quotes = [] then [] else '"' :: quotes ++ ['"']) ++ more

def quoted (text : Octets) : Octets := quotedFrom (text.length + 1) text

/-- Variables in the order of their names, each behind a word, with their values. -/
def bindingLines (before : Octets) (bindings : List (Octets × Variable)) : List Octets :=
  let sorted := bindings.mergeSort fun a b => Octets.isLe a.1 b.1
  sorted.map fun (name, v) =>
    before ++ name ++ (v.value.elim [] fun value => '=' :: quoted value)

/-- A definition as `alias` shows it. -/
def aliasLine (name value : Octets) : Octets := name ++ '=' :: quoted value

/-- The row of a table of some rows in which a name is kept. -/
def row (rows : Nat) (name : Octets) : Nat :=
  (16 * (name.headD '\x00').toNat + name.foldl (fun n c => n + c.toNat) 0) % rows

/-- The rows of the table of variables. -/
def variableRows : Nat := 39

/-- Entries of a table with some rows, those of one row in the order in which they were made. -/
def byRow {α : Type} (rows : Nat) (entries : List (Octets × α)) : List (Octets × α) :=
  entries.mergeSort fun a b => row rows a.1 ≤ row rows b.1

end BitcodeReplay.Shell.Listing
