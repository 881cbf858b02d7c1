import BitcodeReplay.Execution.Replay
import BitcodeReplay.FileTree.Edit
import BitcodeReplay.Program

/-!
The command line. The directory it is run in and the paths it names are taken as a tree, the program
is run on the tree, and what has changed there is put in its place.
-/

namespace BitcodeReplay.CommandLine

/-- A file that names its own interpreter can be run. -/
def isScript (bytes : ByteArray) : Bool := bytes.extract 0 2 == "#!".toUTF8

/-- The entries at and below a path. A link is taken to lead where it leads in the end. -/
partial def entriesAt (path : String) : IO (List (Location × Entry)) := do
  let place := System.mkFilePath [path]
  let loc := Path.names path
  match (← place.symlinkMetadata).type with
  | .dir =>
    let names := (← place.readDir).toList.reverse.map (·.fileName)
    let below ← names.mapM fun name => entriesAt (Path.join path name)
    return (loc, .dir) :: below.flatten
  | .file =>
    let bytes ← IO.FS.readBinFile place
    return [(loc, .file bytes (isScript bytes))]
  | .symlink =>
    let target ← try pure (← IO.FS.realPath place).toString catch _ => pure ""
    return [(loc, .link target)]
  | .other => return []

/-- Adds what stands at a path, unless it is there already, and the directories above it. -/
def addAt (t : FileTree) (path : String) : IO FileTree := do
  if t.isPresent path then return t
  if !(← (System.mkFilePath [path]).pathExists) then return t
  let top ← if ".." ∈ Path.names path then pure (← IO.FS.realPath path).toString else pure path
  let entries ← entriesAt top
  return entries.foldl (fun t p => t.put p.1 p.2) (t.createDirAll top).1

/-- The paths that a command line names, seen from a directory. -/
def namedPaths (base : String) (arguments : List String) : List String :=
  match Usage.parse arguments with
  | .ok a =>
    ([a.log, a.archive, a.pifCache] ++ a.buildCache.toList ++ a.outputPath.toList).map
      (Path.join base)
  | .error _ => []

/-- All that is left of the standard input. -/
partial def readRest (stream : IO.FS.Stream) (read : ByteArray) : IO ByteArray := do
  let next ← stream.read 65536
  if next.isEmpty then return read else readRest stream (read ++ next)

/-- The standard input, if a command line asks for it. -/
def readInput (arguments : List String) : IO ByteArray :=
  match Usage.parse arguments with
  | .ok a =>
    if a.log = Transcript.standardInput then do readRest (← IO.getStdin) .empty
    else return .empty
  | .error _ => return .empty

/-- The path of a location on the disk. -/
def placeOf (loc : Location) : String := "/" ++ String.intercalate "/" loc

/-- Removes what is gone. -/
def remove (loc : Location) : IO Unit := do
  let place := System.mkFilePath [placeOf loc]
  match (← place.symlinkMetadata).type with
  | .dir => IO.FS.removeDir place
  | _ => IO.FS.removeFile place

/-- Makes what is new. -/
def make (loc : Location) : Entry → IO Unit
  | .dir => IO.FS.createDirAll (placeOf loc)
  | .file bytes executable => do
    IO.FS.writeBinFile (placeOf loc) bytes
    if executable then
      IO.setAccessRights (placeOf loc) ⟨⟨true, true, true⟩, ⟨true, false, true⟩, ⟨true, false, true⟩⟩
  | .link _ | .special _ => return ()

/-- The directory for work in progress. It is in the tree only. -/
def scratch : String := "/tmp/bitcode-replay"

/-- Runs the program on the files that its arguments name. -/
def run (arguments : List String) : IO UInt32 := do
  let base := (← IO.currentDir).toString
  let named := namedPaths base arguments
  let found ← (if named = [] then [] else base :: named).foldlM addAt FileTree.empty
  let before := Host.mount found
  let result :=
    Program.run Execution.replay base scratch arguments (← readInput arguments) before
  (FileTree.lost before result.tree).forM remove
  (FileTree.gained before result.tree).forM fun p => make p.1 p.2
  IO.print result.output
  return result.code.toUInt32

end BitcodeReplay.CommandLine

def main (arguments : List String) : IO UInt32 := BitcodeReplay.CommandLine.run arguments
