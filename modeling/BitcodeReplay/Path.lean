import BitcodeReplay.Text.Search

/-!
Paths as texts. Names are separated by slashes; empty names and single dots say nothing.
-/

namespace BitcodeReplay.Path

/-- The names of a path in order, with `..` among them. -/
def names (path : String) : List String :=
  ((path.toList.splitOn '/').filter fun n => n ≠ [] ∧ n ≠ ['.']).map String.ofList

def isAbsolute (path : String) : Bool := ['/'].isPrefixOf path.toList

/-- Only a directory can stand at a path that ends in a slash or a dot of its own. -/
def wantsDirectory (path : String) : Bool :=
  match path.toList.reverse with
  | '/' :: _ => true
  | '.' :: '/' :: _ => true
  | ['.'] => true
  | _ => false

/-- The last part of a path is a single dot, whatever slashes follow it. -/
def endsInDot (path : String) : Bool :=
  match path.toList.reverse.dropWhile (· == '/') with
  | '.' :: '/' :: _ => true
  | ['.'] => true
  | _ => false

/-- A path below another, unless it is absolute. -/
def join (base path : String) : String :=
  if isAbsolute path then path
  else if base = "" ∨ ['/'].isSuffixOf base.toList then base ++ path
  else base ++ "/" ++ path

/-- The last name of a path, which `..` is not. -/
def fileName? (path : String) : Option String :=
  match (names path).getLast? with
  | some name => if name = ".." then none else some name
  | none => none

/-- A file name before and after its last dot; a dot at its start separates nothing. -/
def splitName (name : List Char) : List Char × Option (List Char) :=
  match Text.cutLast? '.' name with
  | some (stem, extension) => if stem = [] then (name, none) else (stem, some extension)
  | none => (name, none)

/-- A file name without its extension. -/
def nameStem (name : String) : String := String.ofList (splitName name.toList).1

/-- The last name of a path, without its extension. -/
def stem? (path : String) : Option String := (fileName? path).map nameStem

/-- The extension of the last name of a path. -/
def extension? (path : String) : Option String :=
  (fileName? path).bind fun name => (splitName name.toList).2.map String.ofList

/-- Drops slashes, and dots that stand alone, from the end of a path that is read backwards. -/
def dropTrailing : List Char → List Char
  | '/' :: rest => dropTrailing rest
  | '.' :: '/' :: rest => dropTrailing rest
  | rest => rest

/-- A path with another extension. The old one goes first: a path without a file name stays as it
is, and so does what is left if that is two dots. -/
def withExtension (path extension : String) : String :=
  match fileName? path with
  | none => path
  | some name =>
    let bare := (dropTrailing path.toList.reverse).reverse
    let kept := bare.take (bare.length - name.length)
    if nameStem name = "." && bare.length = path.length then String.ofList kept ++ ".."
    else String.ofList kept ++ nameStem name ++ "." ++ extension

theorem append_splitName {name stem extension : List Char}
    (h : splitName name = (stem, some extension)) : name = stem ++ '.' :: extension := by
  rw [splitName] at h
  split at h
  · next a b hab =>
    by_cases ha : a = [] <;> simp [ha] at h
    obtain ⟨rfl, rfl⟩ := h
    exact Text.cutLast?_eq_append hab
  · simp at h

end BitcodeReplay.Path
