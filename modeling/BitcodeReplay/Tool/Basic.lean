import BitcodeReplay.Shell.Arithmetic
import BitcodeReplay.Shell.Opening
import BitcodeReplay.Text.Bracket
import BitcodeReplay.Text.Utf8
import BitcodeReplay.Tool.Options

/-!
What all tools share: complaints, options, reading what is given to them, and numbers in words, with
the letters that multiply them. Names in messages are quoted so that a shell would read them back, and
a character that cannot be shown is written as an escape.
-/

namespace BitcodeReplay.Tool.Quote

/-- The escape of a character that cannot be shown. -/
def escape? (c : Char) : Option Octets :=
  match c with
  | '\x07' => some ['\\', 'a']
  | '\x08' => some ['\\', 'b']
  | '\x0c' => some ['\\', 'f']
  | '\n' => some ['\\', 'n']
  | '\r' => some ['\\', 'r']
  | '\t' => some ['\\', 't']
  | '\x0b' => some ['\\', 'v']
  | c =>
    if Text.inClass "print" c then none
    else
      let digits := Nat.toDigits 8 c.toNat
      some ('\\' :: List.replicate (3 - digits.length) '0' ++ digits)

/-- A character that means something to a shell wherever it stands. -/
def isSpecial (c : Char) : Bool :=
  [' ', '!', '"', '$', '&', '(', ')', '*', ';', '<', '=', '>', '[', '^', '\x60', '|', '\'', '\\',
    '?'].contains c

/-- Whether a name has to be quoted. -/
def isNeeded (name : Octets) : Bool :=
  name = [] || name = ['\x7b'] || name = ['\x7d'] ||
    name.head?.any (fun c => c == '#' || c == '~') ||
    name.any fun c => isSpecial c || (escape? c).isSome

/-- The rest of a quoted name; the flag says that an escape came last. -/
def body (escaping : Bool) : Octets → Octets
  | [] => []
  | c :: rest =>
    match escape? c with
    | some text => (if escaping then [] else ['\'', '$', '\'']) ++ text ++ body true rest
    | none =>
      let start := if escaping then ['\'', '\''] else []
      if c = '\'' then start ++ ['\'', '\\', '\'', '\''] ++ body false rest
      else start ++ c :: body false rest

/-- A name in quotes. Double quotes are used for one that holds single quotes, if nothing in it means
something between double quotes. -/
def always (name : Octets) : Octets :=
  let isPlain := fun c => !isSpecial c || c == ' ' || c == '\''
  if name.contains '\'' && name.all (fun c => isPlain c && (escape? c).isNone) then
    '"' :: name ++ ['"']
  else '\'' :: body false name ++ ['\'']

/-- A name, in quotes if it needs them. -/
def ifNeeded (name : Octets) : Octets := if isNeeded name then always name else name

end BitcodeReplay.Tool.Quote

namespace BitcodeReplay.Tool

open Shell

/-- Writes a message behind the name of the tool. -/
def say (text : Octets) : Act Unit :=
  modify fun s => s.report (s.name ++ Octets.ofText ": " ++ text ++ ['\n'])

/-- Writes a line behind the name of the tool, to its output. -/
def tell (message : Octets) : Act Unit := do
  Act.putLine ((← get).name ++ Octets.ofText ": " ++ message)

/-- Complains, and leaves a status. -/
def failWith (status : Nat) (text : Octets) : Act Unit := do
  say text
  Act.setStatus status

def fail (text : Octets) : Act Unit := failWith 1 text

def text (t : String) : Octets := Octets.ofText t

/-- Complains of a word. -/
def failOn (before : String) (word : Octets) (after : String) : Act Unit :=
  fail (text before ++ Quote.always word ++ text after)

/-- Complains of an operation on files that has failed. -/
def failFor (before : String) (path : Octets) (e : FileError) : Act Unit :=
  failOn before path (": " ++ errorText e)

/-- Says how to learn more, and leaves a status. -/
def hint (status : Nat) : Act Unit :=
  modify fun s =>
    { s.report (text "Try '" ++ s.name ++ text " --help' for more information.\n") with
      status := status }

/-- Complains of the words, and says how to learn more. -/
def misused (status : Nat) (message : Octets) : Act Unit := do
  say message
  hint status

/-- Complains that an operand is missing. -/
def missingOperand : Act Unit := misused 1 (text "missing operand")

/-- Complains of an operand that is one too many. -/
def extraOperand (word : Octets) : Act Unit :=
  misused 1 (text "extra operand " ++ Quote.always word)

/-- Goes on with the options and the operands, unless the words are not understood. -/
def withOptionsOr (status : Nat) (t : OptionTable) (words : List Octets)
    (act : Given → List Octets → Act Unit) : Act Unit := do
  match t.read words with
  | .ok (given, operands) => act given operands
  | .error e => misused status (text e.message)

def withOptions (t : OptionTable) (words : List Octets) (act : Given → List Octets → Act Unit) :
    Act Unit :=
  withOptionsOr 1 t words act

/-- Why nothing can be read. -/
inductive InputFailure where
  | unopened (e : FileError)
  | unreadable (e : StreamFailure)

def InputFailure.reason : InputFailure → String
  | .unopened e => errorText e
  | .unreadable e => e.message

/-- Opens an operand for reading; a dash is the input of the tool. -/
def openInput (path : Octets) : Act (Except InputFailure Nat) := do
  let s ← get
  if path = ['-'] then
    match s.channels.lookup 0 with
    | some n => return .ok n
    | none => return .error (.unreadable .badDescriptor)
  else
    match ← Act.openPath path .read with
    | .error e => return .error (.unopened e)
    | .ok n => return .ok n

/-- Takes what can be read from a stream now. -/
def takeReady (stream : Nat) : Act (Except InputFailure Octets) := do
  let s ← get
  match s.toWorld.pending stream with
  | .error e => return .error (.unreadable e)
  | .ok found =>
    set (s.modifyWorld fun w => w.skip stream found.length)
    return .ok found

/-- Takes all that can be read from a stream, and waits until that is all. -/
def takeAll (stream : Nat) : Act (Except InputFailure Octets) := do
  Act.awaitAll stream
  takeReady stream

/-- Takes what can be read from a stream and does something with each part as it comes. The first
argument bounds the parts. -/
def takeParts (stream : Nat) (use : Octets → Act Unit) : Nat → Act (Except InputFailure Unit)
  | 0 => return .ok ()
  | bound + 1 => do
    Act.awaitInput stream fun p => 0 < p.size
    let s ← get
    match s.toWorld.pending stream with
    | .error e => return .error (.unreadable e)
    | .ok [] => return .ok ()
    | .ok found =>
      set (s.modifyWorld fun w => w.skip stream found.length)
      use found
      if (← get).flow = .running then takeParts stream use bound else return .ok ()

/-- Waits until enough has come of what can be read from a stream, or all of it. The first argument
bounds the parts that are looked at, and the last says how much has been looked at before. -/
def awaitEnough (stream : Nat) (isEnough : Octets → Bool) : Nat → Nat → Act Unit
  | 0, _ => pure ()
  | bound + 1, seen => do
    Act.awaitInput stream fun p => seen < p.size
    let found := ((← get).toWorld.pending stream).toOption.getD []
    if seen < found.length && found.length < Act.endless && !isEnough found then
      awaitEnough stream isEnough bound found.length

/-- All that an operand holds. -/
def contentOf (path : Octets) : Act (Except InputFailure Octets) := do
  match ← openInput path with
  | .error e => return .error e
  | .ok stream => takeAll stream

/-- All that an operand holds; nothing after a complaint. -/
def content? (path : Octets) : Act (Option Octets) := do
  match ← contentOf path with
  | .ok found => return some found
  | .error e =>
    fail (Quote.ifNeeded path ++ text (": " ++ e.reason))
    return none

/-- The operands, or the input of the tool if there are none. -/
def orInput (operands : List Octets) : List Octets := if operands = [] then [['-']] else operands

/-- All that the operands hold, one after the other. -/
def contents (operands : List Octets) : Act Octets := do
  let mut all := #[]
  for path in orInput operands do
    all := all.push ((← content? path).getD [])
  return all.toList.flatten

/-- Lines with their line feeds. What follows the last line feed is a line too. -/
def rawLines (t : Octets) : List Octets :=
  let lines := t.lines.map (· ++ ['\n'])
  if t.getLast? = some '\n' || t = [] then lines
  else
    match lines.reverse with
    | last :: above => (last.dropLast :: above).reverse
    | [] => []

/-- Writes lines, each with a line feed. -/
def putLines (lines : List Octets) : Act Unit := Act.put (lines.flatMap (· ++ ['\n']))

/-- What a tool says of output that could not be written for a reason, and its status then. -/
def outputComplaints (tool reason : String) : List String × Nat :=
  match tool with
  | "grep" | "egrep" | "fgrep" | "ls" | "dir" => (["write error: " ++ reason], 2)
  | "expr" => (["write error: " ++ reason], 3)
  | "env" => (["write error: " ++ reason], 125)
  | "sed" => (["couldn't flush stdout: " ++ reason], 4)
  | "sort" => (["fflush failed: 'standard output': " ++ reason, "write error"], 2)
  | "find" => (["'standard output': " ++ reason, "write error"], 1)
  | "tee" => (["'standard output': " ++ reason], 1)
  | "yes" => (["standard output: " ++ reason], 1)
  | "awk" | "mawk" => (["close failed on file \"/dev/stdout\" (" ++ reason ++ ")"], 2)
  | _ => (["write error: " ++ reason], 1)

/-- Tells that the output of a tool could not be written. -/
def checkOutput (tool : String) : Act Unit := do
  match (← get).failed with
  | some e =>
    if (← get).flow = .running then
      let (lines, status) := outputComplaints tool e.message
      for line in lines do failWith status (text line)
  | none => pure ()

/-- What the letters behind a number multiply it by. -/
def unit? (letters : Octets) : Option Nat :=
  let power := fun c : Char => ("KMGTPEZY".toList.idxOf? c.toUpper).map (· + 1)
  match letters with
  | [] => some 1
  | ['b'] => some 512
  | ['c'] => some 1
  | ['k', 'B'] => some 1000
  | [c] => (power c).map (Nat.pow 1024)
  | [c, 'B'] => (power c).map (Nat.pow 1000)
  | [c, 'i', 'B'] => (power c).map (Nat.pow 1024)
  | _ => none

/-- A count with a unit. -/
def count? (word : Octets) : Option Nat :=
  let digits := word.takeWhile Text.isDigit
  if digits = [] then none
  else (unit? (word.drop digits.length)).map (Shell.Arithmetic.digitsValue 10 digits * ·)

/-- A number in decimal digits alone. -/
def decimal? (word : Octets) : Option Nat := Shell.Session.decimal? word

/-- A text filled up at its start to a width. -/
def rightAligned (width : Nat) (word : Octets) : Octets :=
  List.replicate (width - word.length) ' ' ++ word

/-- A text filled up at its end to a width. -/
def leftAligned (width : Nat) (word : Octets) : Octets :=
  word ++ List.replicate (width - word.length) ' '

end BitcodeReplay.Tool
