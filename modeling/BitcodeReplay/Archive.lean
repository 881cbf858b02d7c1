import BitcodeReplay.FileTree.Edit
import BitcodeReplay.Traversal

/-!
The products in an archive: the frameworks it embeds, and the names under which it holds products.
-/

namespace BitcodeReplay.Archive

def productsPath (archive : String) : String := Path.join archive "Products"

/-- Where a name in a directory leads, through links. -/
def follow? (t : FileTree) (directory : Location) (name : String) : Option Location :=
  match t.walk true FileTree.maxLinks directory [name] with
  | .ok (.found loc .dir) => some loc
  | _ => none

/-- The directories that a directory holds, through links. -/
def subdirectories (t : FileTree) (directory : Location) : List Location :=
  (t.namesIn directory).filterMap (follow? t directory)

/-- The directories that can be reached from a directory. -/
def reachable (t : FileTree) (directory : Location) : List Location :=
  Traversal.entered (Traversal.run (subdirectories t) t.directories [.visit directory] [])

/-- The names, without their extension, of the framework directories in a directory. -/
def frameworkStems (t : FileTree) (directory : Location) : List String :=
  ((t.namesIn directory).filter fun name =>
    ".framework".toList.isSuffixOf name.toList && (follow? t directory name).isSome).map
      Path.nameStem

/-- Puts a name into a sorted list, unless it is there. -/
def insertSorted (name : String) : List String → List String
  | [] => [name]
  | n :: rest =>
    if name = n then n :: rest
    else if name < n then name :: n :: rest
    else n :: insertSorted name rest

/-- The names, without their extension, of the frameworks that stand in a directory `Frameworks`
below the products. -/
def embeddedFrameworks (t : FileTree) (archive : String) : List String :=
  match t.find? (productsPath archive) with
  | some (loc, .dir) =>
    (((reachable t loc).filterMap (follow? t · "Frameworks")).flatMap (frameworkStems t)).foldr
      insertSorted []
  | _ => []

/-- How deep below the products a product may stand. -/
def searchDepth : Nat := 5

/-- The names of all entries that may be products. -/
def entryNames (t : FileTree) (archive : String) : List String :=
  (t.listedBelow (productsPath archive)).filterMap fun p =>
    if p.1.length ≤ searchDepth then p.1.getLast? else none

/-- The first product of a stem among some names. A name without an extension is no product. -/
def product? (names : List String) (stem : String) : Option String :=
  names.find? fun name => Path.nameStem name == stem && name != stem

end BitcodeReplay.Archive
