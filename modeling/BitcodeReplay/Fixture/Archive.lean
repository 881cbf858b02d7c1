import BitcodeReplay.Archive
import BitcodeReplay.ProductTree.Basic

/-!
Archives for trying things out.
-/

namespace BitcodeReplay.Fixture.Archive

/-- Makes the directory of a product, given by its path below the products, and says where it is. -/
def addProduct (t : FileTree) (archive relative : String) :
    FileTree × Except WriteFailure String :=
  let path := Path.join (BitcodeReplay.Archive.productsPath archive) relative
  match t.createDirAll path with
  | (made, .ok ()) => (made, .ok path)
  | (made, .error e) => (made, .error ⟨path, e⟩)

/-- The names in a directory, in order; none if there is no directory. -/
def sortedNames (t : FileTree) (directory : String) : Option (List String) :=
  match t.readDir directory with
  | .ok names => some (names.mergeSort fun a b => decide (a ≤ b))
  | .error _ => none

end BitcodeReplay.Fixture.Archive
