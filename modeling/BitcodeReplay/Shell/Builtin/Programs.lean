import BitcodeReplay.Shell.Builtin.Names
import BitcodeReplay.Shell.Image

/-!
What a word stands for as the name of a command: a reserved word, an alias, a function, a builtin or
a program. Programs that have been looked up are remembered.
-/

namespace BitcodeReplay.Shell

/-- The directories in which programs are looked for. -/
def Session.directories (s : Session) : String := ((s.named "PATH").getD []).toText

/-- The path of the program that a command leads to. -/
def Session.programPath (s : Session) (directories : String) (command : Octets) :
    Except FileError String :=
  Image.find s.tree s.directory directories command.toText

/-- Why there is no program. -/
def absenceText (e : FileError) : String := if Image.isAbsence e then "not found" else errorText e

namespace Builtin

open Act

/-- How many rows the table of programs has. -/
def programRows : Nat := 31

/-- Remembers where a program is. -/
def track (name : Octets) (path : String) (s : Session) : Session :=
  if s.tracked.any fun p => p.1 == name then s
  else { s with tracked := s.tracked ++ [(name, Octets.ofText path)] }

/-- What is found at a path that is given as the name of a command. -/
def isThere (s : Session) (path : Octets) : Bool :=
  (s.entryAt true path).isSome

/-- What a name stands for. -/
inductive Meaning where
  | reserved
  | shorthand (value : Octets)
  | function
  | special
  | ordinary
  | program (path : Octets) (tracked : Bool)
  | nothing
  deriving DecidableEq, Repr

def meaning (s : Session) (directories : String) (name : Octets) : Meaning :=
  if isReserved name then .reserved
  else
    match s.aliases.lookup name, s.functions.lookup name, s.programPath directories name with
    | some value, _, _ => .shorthand value
    | none, some _, _ => .function
    | none, none, found =>
      if isSpecial name then .special
      else if isOrdinary name then .ordinary
      else
        match found with
        | .ok path =>
          if name.contains '/' && !isThere s name then .nothing
          else .program (Octets.ofText path) (s.tracked.lookup name).isSome
        | .error _ => .nothing

/-- A meaning in words. -/
def Meaning.text : Meaning → Octets
  | .reserved => Octets.ofText " is a shell keyword"
  | .shorthand value => Octets.ofText " is an alias for " ++ value
  | .function => Octets.ofText " is a shell function"
  | .special => Octets.ofText " is a special shell builtin"
  | .ordinary => Octets.ofText " is a shell builtin"
  | .program path tracked =>
    Octets.ofText (if tracked then " is a tracked alias for " else " is ") ++ path
  | .nothing => Octets.ofText ": not found"

/-- Tells what a name stands for, in words or in a form that can be run. -/
def describe (verbose : Bool) (directories : String) (name : Octets) : Act Unit := do
  let found := meaning (← get) directories name
  setStatus (if found = .nothing then 127 else 0)
  match found with
  | .program path false =>
    let s ← get
    if !name.contains '/' && directories = s.directories then set (track name path.toText s)
  | _ => pure ()
  if verbose then putLine (name ++ found.text)
  else
    match found with
    | .shorthand value => putLine (Octets.ofText "alias " ++ Listing.aliasLine name value)
    | .program path _ => putLine path
    | .nothing => pure ()
    | _ => putLine name

/-- Tells what each word stands for. -/
def typeOf (words : List Octets) : Act Unit := do
  let mut status := 0
  for word in words do
    describe true (← get).directories word
    status := status ||| (← get).status
  setStatus status

/-- Tells what a word stands for, if the options ask for that. -/
def commandOf (words : List Octets) : Act Unit := do
  match ← options "pvV" words with
  | none => pure ()
  | some (given, operands) =>
    setStatus 0
    let asks := given.filter fun p => p.1 != 'p'
    let verbose := given.any fun p => p.1 == 'V'
    let standard := given.any fun p => p.1 == 'p'
    let s ← get
    match asks, operands with
    | _ :: _, name :: _ =>
      describe verbose (if standard then Image.searchPath else s.directories) name
    | _, _ => pure ()

/-- Looks programs up, or lists those that have been. -/
def hash (words : List Octets) : Act Unit := do
  match ← options "r" words with
  | none => pure ()
  | some (given, operands) =>
    setStatus 0
    if given ≠ [] then modify fun s => { s with tracked := [] }
    else if operands = [] then
      for (_, path) in Listing.byRow programRows (← get).tracked do
        putLine path
    else
      let mut status := 0
      for name in operands do
        let s ← get
        if (s.functions.lookup name).isNone && !isKnown name then
          match s.programPath s.directories name with
          | .ok path => if !name.contains '/' then set (track name path s)
          | .error e =>
            set (s.complain (name.toText ++ ": " ++ absenceText e))
            status := 1
      setStatus status

end Builtin

end BitcodeReplay.Shell
