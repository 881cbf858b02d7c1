import BitcodeReplay.FileTree.Edit
import BitcodeReplay.Pif.Cache

/-!
Loading a snapshot from its directory. The workspace object is the only one of its kind, and the
others are found by the signatures listed in the objects above them.
-/

namespace BitcodeReplay.Pif

/-- Why a directory holds no snapshot. -/
inductive LoadFailure where
  | missing (root : String)
  | workspaceCount (directory : String) (count : Nat)
  | unreadable (path : String) (cause : FileError)
  | undecodable (path : String) (cause : DecodeError)
  deriving DecidableEq, Repr

def LoadFailure.message : LoadFailure → String
  | .missing root => "no PIF cache found at " ++ root
  | .workspaceCount directory count =>
    "expected exactly one workspace object in " ++ directory ++ ", found " ++ toString count
  | .unreadable path _ => "failed to read PIF object " ++ path
  | .undecodable path _ => "failed to decode PIF object " ++ path

/-- The file of an object. -/
def objectPath (root kind signature : String) : String :=
  Path.join (Path.join root kind) (signature ++ "-json")

/-- A file name in the manner of the workspace object's. -/
def isWorkspaceName (name : String) : Bool :=
  "WORKSPACE@".toList.isPrefixOf name.toList && "-json".toList.isSuffixOf name.toList

/-- The file of the workspace object. -/
def workspacePath (t : FileTree) (root : String) : Except LoadFailure String :=
  let directory := Path.join root "workspace"
  if !t.isDir directory then .error (.missing root)
  else
    match t.readDir directory with
    | .error e => .error (.unreadable directory e)
    | .ok names =>
      match names.filter isWorkspaceName with
      | [name] => .ok (Path.join directory name)
      | found => .error (.workspaceCount directory found.length)

/-- What stands for stray bytes: an escape without a meaning, which does no harm in a string that
nobody reads. After a backslash it is a character that no JSON text holds. -/
def strayText (escaped : Bool) : List Char := if escaped then ['\x00'] else "\\udc80\\udc80".toList

/-- The text of an object, from a place that follows a lone backslash or does not. -/
def objectText (escaped : Bool) : List (Option Char) → List Char
  | [] => []
  | none :: rest => strayText escaped ++ objectText false rest
  | some c :: rest => c :: objectText (c == '\\' && !escaped) rest

/-- Reads an object from its file. -/
def readObject {τ : Type} (t : FileTree) (decode : List Char → Except DecodeError τ)
    (path : String) : Except LoadFailure τ :=
  match t.readFile path with
  | .error e => .error (.unreadable path e)
  | .ok bytes => (decode (objectText false (Utf8.decode bytes))).mapError (.undecodable path)

/-- The objects of a directory: the workspace, its projects, and then all their targets. -/
def Cache.load (t : FileTree) (root : String) : Except LoadFailure Cache := do
  let workspace ← readObject t Workspace.ofText (← workspacePath t root)
  let projects ← workspace.projects.mapM fun signature =>
    readObject t Project.ofText (objectPath root "project" signature)
  let targets ← (projects.flatMap (·.targets)).mapM fun signature =>
    readObject t Target.ofText (objectPath root "target" signature)
  return .assemble workspace projects targets

end BitcodeReplay.Pif
