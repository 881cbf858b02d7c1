import BitcodeReplay.FileTree.Edit
import BitcodeReplay.Pif.Guid

/-!
The product directories that receive bitcode, all below one root. Each remembers the target it was
made for, where that is known.
-/

namespace BitcodeReplay

/-- A file or a directory that cannot be written. -/
structure WriteFailure where
  path : String
  cause : FileError
  deriving DecidableEq, Repr

def WriteFailure.message (f : WriteFailure) : String := "failed to write " ++ f.path

/-- Products stand in the order in which they were recorded. -/
structure ProductTree where
  root : String
  products : List (String × Option Pif.Guid)
  deriving DecidableEq, Repr

namespace ProductTree

def start (root : String) : ProductTree := ⟨root, []⟩

def names (p : ProductTree) : List String := p.products.map (·.1)

/-- The directory of a product. -/
def path (p : ProductTree) (product : String) : String := Path.join p.root product

/-- Records a product with its target. The first target that is known stays. -/
def recordProduct (product : String) (guid : Option Pif.Guid) :
    List (String × Option Pif.Guid) → List (String × Option Pif.Guid)
  | [] => [(product, guid)]
  | (name, known) :: rest =>
    if name = product then (name, known <|> guid) :: rest
    else (name, known) :: recordProduct product guid rest

/-- Gives a product another name in its place. -/
def renameProduct (p : ProductTree) (old new : String) : ProductTree :=
  { p with products := p.products.map fun entry => if entry.1 = old then (new, entry.2) else entry }

/-- Makes the directory of a product and records it. -/
def ensure (t : FileTree) (p : ProductTree) (product : String) (guid : Option Pif.Guid) :
    FileTree × Except WriteFailure ProductTree :=
  match t.createDirAll (p.path product) with
  | (made, .ok ()) => (made, .ok { p with products := recordProduct product guid p.products })
  | (made, .error e) => (made, .error ⟨p.path product, e⟩)

end ProductTree

end BitcodeReplay
