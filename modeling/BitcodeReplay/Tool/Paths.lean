import BitcodeReplay.Tool.Basic

/-!
The tools that work on names of files: taking them apart, and following the links in them.
-/

namespace BitcodeReplay.Tool

open Shell

/-- A path without the slashes at its end. -/
def bare (path : Octets) : Octets := (path.reverse.dropWhile (· == '/')).reverse

/-- The last name of a path, without the slashes after it. -/
def lastName (path : Octets) : Octets :=
  match bare path with
  | [] => path.take 1
  | kept => (kept.reverse.takeWhile (· != '/')).reverse

/-- What stands before the last name of a path. -/
def directoryName (path : Octets) : Octets :=
  match bare path with
  | [] => if path = [] then ['.'] else ['/']
  | kept =>
    match kept.reverse.dropWhile (· != '/') with
    | [] => ['.']
    | above =>
      match above.dropWhile (· == '/') with
      | [] => ['/']
      | rest => rest.reverse

/-- A name without an ending, unless it is nothing else. -/
def dropEnding (ending name : Octets) : Octets :=
  if ending.isSuffixOf name ∧ ending.length < name.length then
    name.take (name.length - ending.length)
  else name

/-- Writes a result with what ends it. -/
def putResult (zero : Bool) (result : Octets) : Act Unit :=
  Act.put (result ++ [if zero then '\x00' else '\n'])

def basename (words : List Octets) : Act Unit :=
  let table := OptionTable.ofOrdered "as:z"
    [("multiple", "a", .nothing), ("suffix", "s", .required), ("zero", "z", .nothing)]
  withOptions table words fun given operands => do
    let many := given.has "a" || given.has "s"
    match operands with
    | [] => missingOperand
    | path :: rest =>
      if many then
        for path in operands do
          putResult (given.has "z") (dropEnding ((given.last? "s").getD []) (lastName path))
      else
        match rest with
        | _ :: extra :: _ => extraOperand extra
        | _ => putResult (given.has "z") (dropEnding (rest.headD []) (lastName path))

def dirname (words : List Octets) : Act Unit :=
  withOptions (.ofOrdered "z" [("zero", "z", .nothing)]) words fun given operands => do
    if operands = [] then missingOperand
    for path in operands do
      putResult (given.has "z") (directoryName path)

/-- How much of a path has to be there. -/
inductive Presence where
  | all
  | allButLast
  | none
  deriving DecidableEq, Repr

def locationText (loc : Location) : Octets := text ("/" ++ String.intercalate "/" loc)

/-- The location that a path leads to, the last names of which may be missing. The first argument
bounds how many. -/
def reach (s : Session) (presence : Presence) : Nat → String → Except FileError Location
  | 0, _ => .error .notFound
  | bound + 1, path =>
    match s.tree.resolve true path with
    | .ok (.found loc _) => .ok loc
    | .ok (.free loc) =>
      if presence = .all then .error .notFound else .ok loc
    | .error e =>
      if presence != .none then .error e
      else
        let kept := bare (Octets.ofText path)
        match reach s presence bound (directoryName kept).toText with
        | .ok loc =>
          match (lastName kept).toText with
          | "." => .ok loc
          | ".." => .ok loc.dropLast
          | name => .ok (loc ++ [name])
        | .error e => .error e

/-- The path without links that a path stands for. -/
def canonical (s : Session) (presence : Presence) (path : Octets) : Except FileError Octets :=
  if path = [] then .error .notFound
  else
    let full := s.place path
    match reach s presence (full.length + 1) full with
    | .ok loc =>
      if presence = .allButLast && path.getLast? = some '/' && (s.tree.get? loc).isNone then
        .ok (locationText loc)
      else .ok (locationText loc)
    | .error e => .error e

def readlink (words : List Octets) : Act Unit :=
  let table := OptionTable.of "efmnqsvz"
    [("canonicalize", "f", .nothing), ("canonicalize-existing", "e", .nothing),
      ("canonicalize-missing", "m", .nothing), ("no-newline", "n", .nothing),
      ("quiet", "q", .nothing), ("silent", "s", .nothing), ("verbose", "v", .nothing),
      ("zero", "z", .nothing)]
  withOptions table words fun given operands => do
    let presence? := match given.lastOf? ["e", "f", "m"] with
      | some "e" => some Presence.all
      | some "f" => some Presence.allButLast
      | some _ => some Presence.none
      | none => none
    if operands = [] then missingOperand
    let many := operands.length > 1
    if many && given.has "n" then say (text "ignoring --no-newline with multiple arguments")
    for path in operands do
      let s ← get
      let result := match presence? with
        | some presence => canonical s presence path
        | none =>
          match s.placeOf false path with
          | .ok (.found _ (.link target)) => .ok (Octets.ofText target)
          | .ok (.found _ _) => .error .invalidInput
          | .ok (.free _) => .error .notFound
          | .error e => .error e
      match result with
      | .ok found =>
        if given.has "n" && !many then Act.put found else putResult (given.has "z") found
      | .error e =>
        if given.has "v" && !(given.has "q" || given.has "s") then
          say (Quote.ifNeeded path ++ text (": " ++ errorText e))
        Act.setStatus 1

/-- A path seen from a directory. -/
def relative (base path : Octets) : Octets :=
  let names := fun p : Octets => (p.splitOn '/').filter (· ≠ [])
  let shared := (((names base).zip (names path)).takeWhile fun p => p.1 == p.2).length
  let up := List.replicate ((names base).length - shared) ['.', '.']
  match up ++ (names path).drop shared with
  | [] => ['.']
  | parts => List.intercalate ['/'] parts

def realpath (words : List Octets) : Act Unit :=
  let table := OptionTable.of "eLmPqsz"
    [("canonicalize-existing", "e", .nothing), ("canonicalize-missing", "m", .nothing),
      ("logical", "L", .nothing), ("physical", "P", .nothing), ("quiet", "q", .nothing),
      ("strip", "s", .nothing), ("no-symlinks", "s", .nothing), ("zero", "z", .nothing),
      ("relative-to", "relative-to", .required), ("relative-base", "relative-base", .required)]
  withOptions table words fun given operands => do
    let presence := match given.lastOf? ["e", "m"] with
      | some "e" => Presence.all
      | some _ => Presence.none
      | none => Presence.allButLast
    if operands = [] then missingOperand
    for path in operands do
      let s ← get
      match canonical s presence path with
      | .ok found =>
        let base? := (given.last? "relative-to").bind fun base => (canonical s .none base).toOption
        putResult (given.has "z") (base?.elim found fun base => relative base found)
      | .error e =>
        if !given.has "q" then say (Quote.ifNeeded path ++ text (": " ++ errorText e))
        Act.setStatus 1

/-- The program prints the directory without links, unless it is asked for the name with them. -/
def pwd (words : List Octets) : Act Unit :=
  withOptions (.of "LP" [("logical", "L", .nothing), ("physical", "P", .nothing)]) words
    fun given operands => do
      if operands ≠ [] then say (text "ignoring non-option arguments")
      let s ← get
      let logical := (s.named "PWD").getD []
      let isThere := match s.tree.find? logical.toText with
        | some (loc, .dir) => locationText loc = Octets.ofText s.directory
        | _ => false
      if given.lastOf? ["L", "P"] = some "L" && isThere then Act.putLine logical
      else Act.putLine (text s.directory)

end BitcodeReplay.Tool
