import BitcodeReplay.Compiler
import BitcodeReplay.FileTree.Resolve
import BitcodeReplay.Invocation
import BitcodeReplay.OutputFileMap
import BitcodeReplay.ProductTree.Basic

/-!
Moving the bitcode of a compiler run into a product directory, and the names under which it is kept
there. A Swift compiler lists what it writes in its output file map; clang leaves temporaries in its
working directory. A clang temporary loses the architecture that ends its name, and a name that is
taken gives way to the first free one that is numbered.
-/

namespace BitcodeReplay.Replay

/-- The architectures that clang appends to the names of temporaries. -/
def architectures : List String := ["arm64e", "arm64", "x86_64", "armv7s", "armv7", "i386"]

/-- The start of a text that ends in `e`. -/
def dropEnd? (e s : List Char) : Option (List Char) :=
  (Text.dropStart? e.reverse s.reverse).map List.reverse

/-- What stands before a hyphen and an architecture, if there is something. -/
def beforeArchitecture? (stem : List Char) (architecture : String) : Option (List Char) :=
  (dropEnd? ('-' :: architecture.toList) stem).filter (· ≠ [])

/-- The stem of a temporary without its architecture. -/
def withoutArchitecture (stem : List Char) : List Char :=
  (architectures.findSome? (beforeArchitecture? stem)).getD stem

def bitcodeName (stem : String) : String := stem ++ ".bc"

/-- The name under which a file that a compiler has written is kept. -/
def keptName? (compiler : Compiler) (path : String) : Option String :=
  match compiler with
  | .swiftc => Path.fileName? path
  | .clang =>
    (Path.stem? path).map fun stem =>
      bitcodeName (String.ofList (withoutArchitecture stem.toList))

/-- A name with a number before its extension. -/
def numberedName (name : String) (n : Nat) : String :=
  bitcodeName (Path.nameStem name ++ "-" ++ toString n)

/-- Whether nothing stands in a directory under a name. -/
def isFree (t : FileTree) (directory name : String) : Bool :=
  !t.isPresent (Path.join directory name)

/-- The first number that makes a name free. Each number that does not is that of an entry, so one
more than there are entries has to be looked at. -/
def freeNumber (t : FileTree) (directory name : String) : Nat :=
  ((List.range (t.entries.length + 1)).find? fun i =>
    isFree t directory (numberedName name (i + 1))).getD t.entries.length + 1

/-- The name itself if it is free, or else the first free one that is numbered. -/
def freeName (t : FileTree) (directory name : String) : String :=
  if isFree t directory name then name else numberedName name (freeNumber t directory name)

theorem dropEnd?_eq_some_iff {e s r : List Char} : dropEnd? e s = some r ↔ s = r ++ e := by
  simp only [dropEnd?, Option.map_eq_some_iff, Text.dropStart?_eq_some_iff]
  constructor
  · rintro ⟨a, ha, rfl⟩
    simpa using congrArg List.reverse ha
  · rintro rfl
    exact ⟨r.reverse, by simp, by simp⟩

/-- Where a command runs: the directory that relative paths of maps start from, the working directory
of the command, and the product directory that takes its bitcode. -/
structure Site where
  base : String
  work : String
  output : String
  deriving DecidableEq, Repr

/-- Why bitcode cannot be taken. -/
inductive HarvestFailure where
  | map (cause : OutputFileMap.Failure)
  | write (failure : WriteFailure)
  deriving DecidableEq

def isBitcode (name : String) : Bool := Path.extension? name == some "bc"

/-- The bitcode files in a working directory, in the order of their names. -/
def temporaries (t : FileTree) (work : String) : Except HarvestFailure (List String) :=
  match t.readDir work with
  | .error e => .error (.write ⟨work, e⟩)
  | .ok names =>
    .ok (((names.filter isBitcode).mergeSort fun a b => decide (a ≤ b)).map (Path.join work))

/-- The files in which a compiler run may have left bitcode. -/
def produced (t : FileTree) (s : Site) (i : Invocation) : Except HarvestFailure (List String) :=
  if i.compiler.usesOutputFileMap then
    match i.outputFileMap with
    | none => .ok []
    | some map =>
      match OutputFileMap.bitcodePaths t (Path.join s.base map) with
      | .ok paths => .ok (paths.map (Path.join s.base))
      | .error e => .error (.map e)
  else temporaries t s.work

/-- Moves a file, by a copy if it cannot be renamed. -/
def moveFile (t : FileTree) (source target : String) : FileTree × Except HarvestFailure Unit :=
  match t.rename source target with
  | .ok moved => (moved, .ok ())
  | .error _ =>
    match t.copyFile source target with
    | .error e => (t, .error (.write ⟨target, e⟩))
    | .ok copied =>
      match copied.removeFile source with
      | .ok moved => (moved, .ok ())
      | .error _ => (copied, .ok ())

/-- Moves one file under a free name; nothing happens if there is no such file. -/
def takeFile (t : FileTree) (compiler : Compiler) (output source : String) :
    FileTree × Except HarvestFailure Nat :=
  match t.isFile source, keptName? compiler source with
  | true, some name =>
    match moveFile t source (Path.join output (freeName t output name)) with
    | (moved, .ok ()) => (moved, .ok 1)
    | (kept, .error e) => (kept, .error e)
  | _, _ => (t, .ok 0)

/-- Moves files one after the other and counts them. -/
def takeFiles (compiler : Compiler) (output : String) : FileTree → List String →
    FileTree × Except HarvestFailure Nat
  | t, [] => (t, .ok 0)
  | t, source :: rest =>
    match takeFile t compiler output source with
    | (kept, .error e) => (kept, .error e)
    | (moved, .ok n) =>
      match takeFiles compiler output moved rest with
      | (kept, .error e) => (kept, .error e)
      | (done, .ok m) => (done, .ok (n + m))

/-- Moves the bitcode of a compiler run into the product directory and counts the files. -/
def harvest (t : FileTree) (s : Site) (i : Invocation) : FileTree × Except HarvestFailure Nat :=
  match produced t s i with
  | .error e => (t, .error e)
  | .ok files => takeFiles i.compiler s.output t files

end BitcodeReplay.Replay
