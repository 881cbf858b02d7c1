import BitcodeReplay.FileTree.Basic
import BitcodeReplay.Path

/-!
Following paths through a tree. A link stands for its target, read from the directory that holds
the link.
-/

namespace BitcodeReplay

/-- Why an operation on files fails. -/
inductive FileError where
  | notFound
  | alreadyExists
  | notADirectory
  | isADirectory
  | permissionDenied
  | invalidData
  | invalidInput
  | notEmpty
  | tooManyLinks
  | notExecutable
  | nameTooLong
  | noSpace
  | noDevice
  deriving DecidableEq, Repr

/-- Where a path leads: to an entry, or to a name that is free in a directory. -/
inductive Place where
  | found (loc : Location) (entry : Entry)
  | free (loc : Location)

namespace FileTree

/-- How many links a path may lead through. -/
def maxLinks : Nat := 40

/-- How many bytes a name may have. -/
def maxName : Nat := 255

/-- How many bytes a path may have. -/
def maxPath : Nat := 4095

/-- The names to follow for a path, with a dot at the end where it wants a directory. -/
def steps (path : String) : List String :=
  Path.names path ++ if Path.wantsDirectory path then ["."] else []

/-- Follows names from a directory, through at most `links` links. The last name is followed through
a link only if `follow` is set. -/
def walk (t : FileTree) (follow : Bool) : Nat → Location → List String → Except FileError Place
  | _, here, [] => .ok (.found here .dir)
  | links, here, name :: rest =>
    if name = "." then walk t follow links here rest
    else if name = ".." then walk t follow links here.dropLast rest
    else if maxName < name.utf8ByteSize then .error .nameTooLong
    else
      match t.get? (here ++ [name]) with
      | none => if rest = [] then .ok (.free (here ++ [name])) else .error .notFound
      | some .dir => walk t follow links (here ++ [name]) rest
      | some (.file bytes executable) =>
        if rest = [] then .ok (.found (here ++ [name]) (.file bytes executable))
        else .error .notADirectory
      | some (.special kind) =>
        if rest = [] then .ok (.found (here ++ [name]) (.special kind))
        else .error .notADirectory
      | some (.link target) =>
        if rest = [] ∧ !follow then .ok (.found (here ++ [name]) (.link target))
        else
          match links with
          | 0 => .error .tooManyLinks
          | links + 1 =>
            if target = "" then .error .notFound
            else
              walk t follow links (if Path.isAbsolute target then [] else here)
                (steps target ++ rest)
termination_by links _ names => (links, names.length)

/-- Where an absolute path leads. -/
def resolve (t : FileTree) (follow : Bool) (path : String) : Except FileError Place :=
  if path.toList.contains '\x00' then .error .invalidInput
  else if path = "" then .error .notFound
  else if maxPath < path.utf8ByteSize then .error .nameTooLong
  else walk t follow maxLinks [] (steps path)

/-- The entry a path leads to through all links. -/
def find? (t : FileTree) (path : String) : Option (Location × Entry) :=
  match t.resolve true path with
  | .ok (.found l e) => some (l, e)
  | _ => none

def isPresent (t : FileTree) (path : String) : Bool := (t.find? path).isSome

def isDir (t : FileTree) (path : String) : Bool :=
  match t.find? path with
  | some (_, .dir) => true
  | _ => false

def isFile (t : FileTree) (path : String) : Bool :=
  match t.find? path with
  | some (_, .file _ _) => true
  | _ => false

end FileTree

end BitcodeReplay
