import BitcodeReplay.FileTree.Edit

/-!
Clearing a build directory of links that lead nowhere, which a compiler would stumble on. All is done
through paths that begin with the path of the directory, as it was given.
-/

namespace BitcodeReplay.DanglingLinks

/-- Why a directory cannot be cleared. -/
inductive Failure where
  | missing (root : String)
  | remove (path : String) (cause : FileError)
  deriving DecidableEq, Repr

/-- What is said of a failure, unless the system has words for it. -/
def Failure.message? : Failure → Option String
  | .missing root => some ("build cache " ++ root ++ " does not exist")
  | .remove _ _ => none

/-- The path of an entry below a directory, one name after the other. -/
def pathBelow (root : String) (names : Location) : String := names.foldl Path.join root

/-- Goes through entries below a directory, in an order in which a directory comes before what it
holds, and removes the links that lead nowhere. A directory is opened when it is reached; one that
cannot be opened at its path is passed over, with all it holds. No link is followed. -/
def prune (root : String) (t : FileTree) (opened : List Location) :
    List (Location × Entry) → FileTree × Except Failure Unit
  | [] => (t, .ok ())
  | (names, e) :: rest =>
    let path := pathBelow root names
    if names.dropLast ∉ opened then prune root t opened rest
    else
      match e with
      | .dir => prune root t (if t.isDir path then names :: opened else opened) rest
      | .link _ =>
        if t.isPresent path then prune root t opened rest
        else
          match t.removeFile path with
          | .ok after => prune root after opened rest
          | .error e => (t, .error (.remove path e))
      | .file _ _ | .special _ => prune root t opened rest

/-- Clears a directory, going through its entries in some order. -/
def clear (t : FileTree) (root : String) (order : List (Location × Entry)) :
    FileTree × Except Failure Unit :=
  if t.isDir root then prune root t [[]] order else (t, .error (.missing root))

/-- Removes the links below a directory that lead nowhere. -/
def repair (t : FileTree) (root : String) : FileTree × Except Failure Unit :=
  clear t root (t.entriesBelow root)

end BitcodeReplay.DanglingLinks
