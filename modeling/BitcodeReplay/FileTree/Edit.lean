import BitcodeReplay.FileTree.Resolve
import BitcodeReplay.Text.Utf8

/-!
Reading and changing a tree through paths. An operation that fails leaves the tree as it was, apart
from the making of a directory together with those above it, which keeps what it has made.
-/

namespace BitcodeReplay.FileTree

/-- The content of a file. -/
def readFile (t : FileTree) (path : String) : Except FileError ByteArray := do
  match ← t.resolve true path with
  | .found _ (.file bytes _) => return bytes
  | .found _ (.special kind) => if kind = .terminal then throw .noDevice else return .empty
  | .found _ .dir => throw .isADirectory
  | .found _ (.link _) | .free _ => throw .notFound

/-- The content of a file of text. -/
def readText (t : FileTree) (path : String) : Except FileError String := do
  match Utf8.decode? (← t.readFile path) with
  | some text => return text
  | none => throw .invalidData

/-- The names in a directory. -/
def readDir (t : FileTree) (path : String) : Except FileError (List String) := do
  match ← t.resolve true path with
  | .found loc .dir => return t.namesIn loc
  | .found _ _ => throw .notADirectory
  | .free _ => throw .notFound

/-- Why a special entry does not take some content, if it does not. -/
def refusal? (kind : Special) (bytes : ByteArray) : Option FileError :=
  match kind with
  | .full => if bytes.size = 0 then none else some .noSpace
  | .terminal => some .noDevice
  | .null | .zero | .random | .pipe => none

/-- Gives a file its content, or makes it. A special entry takes content, and nothing is kept. -/
def writeFile (t : FileTree) (path : String) (bytes : ByteArray) : Except FileError FileTree := do
  match ← t.resolve true path with
  | .found loc (.file _ executable) => return t.put loc (.file bytes executable)
  | .found _ (.special kind) => (refusal? kind bytes).elim (return t) throw
  | .found _ .dir => throw .isADirectory
  | .found _ (.link _) => throw .notFound
  | .free loc => return t.put loc (.file bytes false)

/-- Adds to the content of a file, or makes it. -/
def appendFile (t : FileTree) (path : String) (bytes : ByteArray) : Except FileError FileTree := do
  match ← t.resolve true path with
  | .found loc (.file known executable) => return t.put loc (.file (known ++ bytes) executable)
  | .found _ (.special kind) => (refusal? kind bytes).elim (return t) throw
  | .found _ .dir => throw .isADirectory
  | .found _ (.link _) => throw .notFound
  | .free loc => return t.put loc (.file bytes false)

/-- Makes one directory. -/
def makeDir (t : FileTree) (names : List String) : Except FileError FileTree := do
  match ← t.walk false maxLinks [] names with
  | .found _ _ => throw .alreadyExists
  | .free loc => return t.put loc .dir

/-- There is a directory at the end of some names. -/
def hasDir (t : FileTree) (names : List String) : Bool :=
  match t.walk true maxLinks [] names with
  | .ok (.found _ .dir) => true
  | _ => false

/-- Makes a directory, given by its names from the last to the first, and those above it. -/
def makeDirs (t : FileTree) : List String → FileTree × Except FileError Unit
  | [] => (t, .ok ())
  | name :: above =>
    let names := (name :: above).reverse
    match t.makeDir names with
    | .ok made => (made, .ok ())
    | .error .notFound =>
      match t.makeDirs above with
      | (made, .error e) => (made, .error e)
      | (made, .ok ()) =>
        match made.makeDir names with
        | .ok done => (done, .ok ())
        | .error e => (made, if made.hasDir names then .ok () else .error e)
    | .error e => (t, if t.hasDir names then .ok () else .error e)

/-- Whether a directory stands at a path, or why not. -/
def checkDir (t : FileTree) (path : String) : Except FileError Unit := do
  match ← t.resolve true path with
  | .found _ .dir => return ()
  | .found _ _ => throw .notADirectory
  | .free _ => throw .notFound

/-- Makes the directory of a path and those above it, as far as they are missing. A path that ends
in a single dot names no directory that could be made, only those above it. -/
def createDirAll (t : FileTree) (path : String) : FileTree × Except FileError Unit :=
  let names := Path.names path
  if path.toList.contains '\x00' then (t, .error .invalidInput)
  else if maxPath < path.utf8ByteSize then (t, .error .nameTooLong)
  else if Path.endsInDot path then
    match t.checkDir path with
    | .error .notFound =>
      match t.makeDirs names.dropLast.reverse with
      | (made, .ok ()) => (made, made.checkDir path)
      | failed => failed
    | result => (t, result)
  else t.makeDirs names.reverse

/-- Removes a file or a link. -/
def removeFile (t : FileTree) (path : String) : Except FileError FileTree := do
  match ← t.resolve false path with
  | .found _ .dir => throw .isADirectory
  | .found loc _ => return t.erase loc
  | .free _ => throw .notFound

/-- Moves an entry to a free place, or onto one of its kind that holds nothing below it. -/
def rename (t : FileTree) (source target : String) : Except FileError FileTree := do
  match ← t.resolve false source with
  | .free _ => throw .notFound
  | .found loc .dir =>
    if target.toList.contains '\x00' then throw .invalidInput
    if maxPath < target.utf8ByteSize then throw .nameTooLong
    match ← t.walk false maxLinks [] (Path.names target) with
    | .free dest =>
      if isWithin dest loc then throw .invalidInput else return t.relocate loc dest
    | .found dest .dir =>
      if dest = loc then return t
      else if isWithin dest loc then throw .invalidInput
      else if t.namesIn dest ≠ [] then throw .notEmpty
      else return t.relocate loc dest
    | .found _ _ => throw .notADirectory
  | .found loc _ =>
    match ← t.resolve false target with
    | .free dest => return t.relocate loc dest
    | .found _ .dir => throw .isADirectory
    | .found dest _ => if dest = loc then return t else return t.relocate loc dest

/-- Copies the content of a file, and whether it can be run. A file copied onto itself is emptied. -/
def copyFile (t : FileTree) (source target : String) : Except FileError FileTree := do
  match ← t.resolve true source with
  | .found loc (.file bytes executable) =>
    match ← t.resolve true target with
    | .found dest (.file _ _) =>
      return t.put dest (.file (if dest = loc then .empty else bytes) executable)
    | .found _ (.special kind) => (refusal? kind bytes).elim (return t) throw
    | .found _ .dir => throw .isADirectory
    | .found _ (.link _) => throw .notFound
    | .free dest => return t.put dest (.file bytes executable)
  | .found _ _ => throw .invalidInput
  | .free _ => throw .notFound

/-- The entries below the directory of a path, by the names that lead to them from there; none if
there is no directory. -/
def entriesBelow (t : FileTree) (path : String) : List (Location × Entry) :=
  match t.find? path with
  | some (loc, .dir) => t.walkBelow (t.entries.length + 1) loc
  | _ => []

/-- Whether the directory that holds an entry, by the names that lead there from a path, can still be
opened: its own path must not be too long. -/
def isListed (path : String) (names : Location) : Bool :=
  decide ((names.dropLast.foldl Path.join path).utf8ByteSize ≤ maxPath)

/-- The entries below the directory of a path that stand in directories which can be opened. -/
def listedBelow (t : FileTree) (path : String) : List (Location × Entry) :=
  (t.entriesBelow path).filter fun p => isListed path p.1

/-! ### What distinguishes two trees -/

/-- The locations of one tree where the other holds nothing, what a directory held before the
directory. -/
def lost (before after : FileTree) : List Location :=
  ((before.entries.map (·.1)).filter fun loc => after.get? loc = none).reverse

/-- The entries that the other tree does not hold at their location. -/
def gained (before after : FileTree) : List (Location × Entry) :=
  after.entries.filter fun p => before.get? p.1 ≠ some p.2

theorem mem_lost {before after : FileTree} {loc : Location} :
    loc ∈ lost before after ↔ (∃ e, (loc, e) ∈ before.entries) ∧ after.get? loc = none := by
  simp [lost]

theorem mem_gained {before after : FileTree} {loc : Location} {e : Entry} :
    (loc, e) ∈ gained before after ↔ (loc, e) ∈ after.entries ∧ before.get? loc ≠ some e := by
  simp [gained]

end BitcodeReplay.FileTree
