import BitcodeReplay.Tool.Paths

/-!
Entries as the tools that work on files see them: what stands at a path, what it is called in
messages, and what a user is asked before something is done to it.
-/

namespace BitcodeReplay.Tool

open Shell

/-- What stands at a path, with its place. -/
structure Thing where
  place : Location
  value : Entry

/-- What stands at a path, with links followed or not. -/
def lookAt (s : Session) (follow : Bool) (path : Octets) : Except FileError Thing :=
  match s.placeOf follow path with
  | .ok (.found loc e) => .ok ⟨loc, e⟩
  | .ok (.free _) => .error .notFound
  | .error e => .error e

def Thing.isDirectory : Thing → Bool
  | ⟨_, .dir⟩ => true
  | _ => false

def Thing.isLink : Thing → Bool
  | ⟨_, .link _⟩ => true
  | _ => false

/-- Whether a directory stands at a path, or what a link there leads to. -/
def isDirectoryAt (s : Session) (path : Octets) : Bool :=
  match lookAt s true path with
  | .ok found => found.isDirectory
  | .error _ => false

/-- A name below a path. -/
def below (path name : Octets) : Octets :=
  if path.getLast? = some '/' then path ++ name else path ++ '/' :: name

/-- The names in a directory in the order of their bytes. -/
def sortedNames (s : Session) (loc : Location) : List Octets :=
  ((s.tree.namesIn loc).map Octets.ofText).mergeSort Octets.isLe

/-- The mode of what stands somewhere. -/
def Thing.mode (s : Session) (t : Thing) : Nat := s.toWorld.modeOf t.place t.value

/-- The letter of a kind of entry. -/
def Thing.letter (t : Thing) : Char :=
  match t.value with
  | .dir => 'd'
  | .link _ => 'l'
  | .file _ _ => '-'
  | .special .pipe => 'p'
  | .special _ => 'c'

/-- What a kind of entry is called. -/
def Thing.kind (t : Thing) : String :=
  match t.value with
  | .dir => "directory"
  | .link _ => "symbolic link"
  | .file bytes _ => if bytes.size = 0 then "regular empty file" else "regular file"
  | .special .pipe => "fifo"
  | .special _ => "character special file"

/-- A mode in nine letters. Those that stand above the ordinary ones change the letters of running. -/
def modeLetters (mode : Nat) : Octets :=
  let bit := fun (mask : Nat) (c : Char) => if mode &&& mask != 0 then c else '-'
  let run := fun (mask special : Nat) (both only : Char) =>
    if mode &&& special != 0 then (if mode &&& mask != 0 then both else only) else bit mask 'x'
  [bit 0o400 'r', bit 0o200 'w', run 0o100 0o4000 's' 'S', bit 0o040 'r', bit 0o020 'w',
    run 0o010 0o2000 's' 'S', bit 0o004 'r', bit 0o002 'w', run 0o001 0o1000 't' 'T']

/-- Takes the next line of the input, and says whether it starts like a yes. -/
def isAgreed : Act Bool := do
  Act.awaitLines 0 1
  let line := (← get).peekLines 0 1
  modify (·.skip 0 line.length)
  return line.head?.any fun c => c == 'y' || c == 'Y'

/-- Asks for leave. -/
def ask (question : Octets) : Act Bool := do
  modify fun s => s.report (s.name ++ text ": " ++ question ++ text "? ")
  isAgreed

/-- Whether a path is the same as another after links have been followed. -/
def isSameFile (s : Session) (a b : Thing) : Bool :=
  (s.toWorld.placesOf a.place).contains b.place

/-- How many places a file stands at; for a directory, how many lead to it. -/
def placeCount (s : Session) (loc : Location) (e : Entry) : Nat :=
  match e with
  | .dir =>
    2 + ((s.tree.below loc).filter fun p => p.1.length == 1 && p.2 == .dir).length
  | _ => (s.toWorld.placesOf loc).length

end BitcodeReplay.Tool
