import BitcodeReplay.Host
import BitcodeReplay.Shell.Session

/-!
What can be run. A file that may be run is a program of the system, or names its interpreter in its
first line.
-/

namespace BitcodeReplay.Shell

/-- What starting a path runs. -/
inductive Image where
  | program (name : String)
  | script (interpreter : Octets) (argument : Option Octets)
  deriving DecidableEq, Repr

namespace Image

/-- The directories searched for a program that is named without a path. -/
def searchPath : String := "/usr/local/sbin:/usr/local/bin:/usr/sbin:/usr/bin:/sbin:/bin"

/-- How many bytes of a file say what runs it. -/
def headLength : Nat := 256

/-- The interpreter that a file names in its first line. Of a line that goes on behind the bytes that
are looked at, the path of the interpreter has to be there as a whole. -/
def interpreter? (head : Octets) : Option Image :=
  match head with
  | '#' :: '!' :: rest =>
    let isGap := fun c => c == ' ' || c == '\t'
    let ends := fun c => isGap c || c == '\x00'
    let filled := rest ++ List.replicate (headLength - 2 - rest.length) '\x00'
    let isWhole := rest.contains '\n' || (filled.dropWhile isGap).any ends
    let line := if rest.contains '\n' then rest.takeWhile (· != '\n')
      else filled.take (headLength - 3)
    let line := ((line.reverse.dropWhile isGap).reverse).dropWhile isGap
    let path := line.takeWhile fun c => !ends c
    let others := line.drop path.length
    if path = [] || !isWhole then none
    else
      some (.script path
        (if others.head?.any isGap then some ((others.dropWhile isGap).takeWhile (· != '\x00'))
        else none))
  | _ => none

/-- What a path runs, seen from a directory. -/
def load (t : FileTree) (directory path : String) : Except FileError Image := do
  if path = "" then throw .notFound
  match ← t.resolve true (Path.join directory path) with
  | .found _ (.file bytes true) =>
    match Host.program? bytes with
    | some name => return .program name
    | none =>
      match interpreter? (Octets.ofBytes (bytes.extract 0 headLength)) with
      | some image => return image
      | none => throw .notExecutable
  | .found _ _ => throw .permissionDenied
  | .free _ => throw .notFound

/-- Whether an error only says that nothing is there. -/
def isAbsence (e : FileError) : Bool := e = .notFound || e = .notADirectory

/-- The path of the program that a name without a slash stands for, and why there is none: the last of
the reasons that are more than absence. -/
def search (t : FileTree) (directory : String) (name : String) (reason : FileError) :
    List String → Except FileError String
  | [] => .error reason
  | place :: rest =>
    let path := if place = "" then name else place ++ "/" ++ name
    match load t directory path with
    | .ok _ => .ok path
    | .error .notExecutable => .ok path
    | .error e => search t directory name (if isAbsence e then reason else e) rest

/-- The path that a command leads to: itself if it holds a slash, or else the first in the
directories to search. -/
def find (t : FileTree) (directory directories command : String) : Except FileError String :=
  if command.toList.contains '/' then .ok command
  else
    search t directory command .notFound
      ((directories.toList.splitOn ':').map String.ofList)

/-- How many interpreters a path may lead through. -/
def maxInterpreters : Nat := 5

/-- The program of the system that runs for a path, the name it is told, and its words. -/
def start (t : FileTree) (directory : String) : Nat → Octets → Octets → List Octets →
    Except FileError (String × Octets × List Octets)
  | levels, self, path, arguments => do
    match ← load t directory path.toText with
    | .program name => return (name, self, arguments)
    | .script interpreter argument =>
      match levels with
      | 0 => throw .tooManyLinks
      | levels + 1 =>
        start t directory levels interpreter interpreter (argument.toList ++ path :: arguments)

end Image

end BitcodeReplay.Shell
