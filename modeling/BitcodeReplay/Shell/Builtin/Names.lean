import BitcodeReplay.Shell.OptionWords
import BitcodeReplay.Shell.Reader.Cursor
import BitcodeReplay.Shell.Session

/-!
The names of builtins, the builtins that work on aliases, and what a command line runs. A `command`
in front makes functions and the weight of builtins not count.
-/

namespace BitcodeReplay.Shell.Builtin

open Act

/-- The builtins that may fail without ending the shell. -/
def ordinary : List String :=
  ["[", "alias", "bg", "cd", "chdir", "command", "echo", "false", "fg", "getopts", "hash", "jobs",
    "kill", "printf", "pwd", "read", "test", "true", "type", "ulimit", "umask", "unalias", "wait"]

def isSpecial (name : Octets) : Bool := specialBuiltins.contains (String.ofList name)

def isOrdinary (name : Octets) : Bool := ordinary.contains (String.ofList name)

def isKnown (name : Octets) : Bool := isSpecial name || isOrdinary name

/-- The builtins whose words may be assignments, which are not split. -/
def takesAssignments (name : Octets) : Bool :=
  ["alias", "export", "local", "readonly"].contains (String.ofList name)

def isReserved (name : Octets) : Bool := Reader.reserved.contains (String.ofList name)

/-- How many rows the table of aliases has. -/
def aliasRows : Nat := 39

/-- A complaint without the name of the shell. -/
def grumble (text : String) : Act Unit :=
  modify fun s => { s.report (Octets.ofText (text ++ "\n")) with status := 1 }

def defineAliases (words : List Octets) : Act Unit := do
  setStatus 0
  if words = [] then
    for (name, value) in Listing.byRow aliasRows (← get).aliases do
      putLine (Listing.aliasLine name value)
  for word in words do
    let name : Octets := word.take 1 ++ (word.drop 1).takeWhile (· != '=')
    match word.drop name.length with
    | _ :: value =>
      modify fun s =>
        let isOld := s.aliases.any fun p => p.1 == name
        { s with
          aliases :=
            if isOld then s.aliases.map fun p => if p.1 == name then (name, value) else p
            else s.aliases ++ [(name, value)] }
    | [] =>
      match (← get).aliases.lookup name with
      | some value => putLine (Listing.aliasLine name value)
      | none => grumble ("alias: " ++ name.toText ++ " not found")

def removeAliases (words : List Octets) : Act Unit := do
  match ← options "a" words with
  | none => pure ()
  | some (given, operands) =>
    setStatus 0
    if given ≠ [] then modify fun s => { s with aliases := [] }
    else
      for name in operands do
        let s ← get
        if s.aliases.any fun p => p.1 == name then
          set { s with aliases := s.aliases.filter fun p => p.1 != name }
        else grumble ("unalias: " ++ name.toText ++ " not found")

end BitcodeReplay.Shell.Builtin

namespace BitcodeReplay.Shell

/-- The words that are run, and what stands before them: whether `command` does, and whether programs
are to be looked for in the standard places. -/
structure Invocation where
  words : List Octets
  asCommand : Bool
  standard : Bool
  deriving DecidableEq, Repr

namespace Invocation

/-- The words behind the options of `command`; nothing if it is to be run itself. -/
def behindOptions? (standard : Bool) : List Octets → Option (Bool × List Octets)
  | [] => none
  | ['-', '-'] :: rest => if rest = [] then none else some (standard, rest)
  | ('-' :: c :: letters) :: rest =>
    if (c :: letters).all (· == 'p') then behindOptions? true rest else none
  | words => some (standard, words)

/-- What some words run. The first argument bounds their number. -/
def ofWords (isFunction : Octets → Bool) : Nat → Invocation → Invocation
  | 0, i => i
  | bound + 1, i =>
    match i.words with
    | name :: rest =>
      if name = "command".toList && (i.asCommand || !isFunction name) then
        match behindOptions? i.standard rest with
        | some (standard, words) => ofWords isFunction bound ⟨words, true, standard⟩
        | none => { i with asCommand := true }
      else i
    | [] => i

def read (s : Session) (words : List Octets) : Invocation :=
  ofWords (fun name => (s.functions.lookup name).isSome) (words.length + 1) ⟨words, false, false⟩

/-- What the name of a command leads to. -/
inductive Kind where
  | function (line : Nat) (body : Command)
  | builtin (special : Bool)
  | program

def kind (s : Session) (i : Invocation) : Kind :=
  let name := i.words.headD []
  match if i.asCommand || Builtin.isSpecial name then none else s.functions.lookup name with
  | some (line, body) => .function line body
  | none =>
    if Builtin.isKnown name then .builtin (Builtin.isSpecial name && !i.asCommand) else .program

/-- Whether the words behind the name may be assignments. -/
def takesAssignments (s : Session) (i : Invocation) : Bool :=
  match i.kind s with
  | .builtin _ => Builtin.takesAssignments (i.words.headD [])
  | _ => false

end Invocation

end BitcodeReplay.Shell
