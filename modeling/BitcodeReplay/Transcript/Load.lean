import BitcodeReplay.FileTree.Edit
import BitcodeReplay.Text.Lines
import BitcodeReplay.Text.Search
import BitcodeReplay.Transcript.Basic

/-!
Reading a transcript line by line, from a file or from the standard input. A command belongs to the
target announced last, and counts only where the last line without indentation opened a compile
block.
-/

namespace BitcodeReplay.Transcript

/-! ### One line -/

namespace Line

/-- The headers of blocks in which a compiler runs. -/
def compileHeaders : List String := ["CompileC ", "SwiftDriver ", "CompileSwiftSources "]

def opensCompileBlock (line : String) : Bool :=
  compileHeaders.any fun header => header.toList.isPrefixOf line.toList

/-- A build starts with the signature of its description. -/
def opensBuild (line : String) : Bool :=
  "Build description signature:".toList.isPrefixOf line.toList

def isBlank (line : String) : Bool := Text.allBlank line.toList

def isIndented (line : String) : Bool := Text.startsBlank line.toList

/-- The target a line announces. A line in the older style, which may be indented, names it between
`=== BUILD TARGET` and `OF PROJECT`; any other line does in its first `(in target '…' from`. -/
def announced? (line : String) : Option String :=
  match Text.dropStart? "=== BUILD TARGET ".toList (Text.trimStart line.toList) with
  | some rest => (Text.before? " OF PROJECT ".toList rest).map String.ofList
  | none =>
    (Text.after? "(in target '".toList line.toList).bind fun rest =>
      (Text.before? "' from ".toList rest).map String.ofList

/-- The text names the executable of `compiler` at the end of a path. -/
def namesBinary (text : List Char) (compiler : Compiler) : Bool :=
  Text.holds ('/' :: compiler.binaryName.toList ++ [' ']) text

/-- The compiler command a line shows: its text from the first slash on. Assembler runs do not
count. -/
def command? (line : String) : Option CapturedCommand :=
  (Text.fromFirst? (· == '/') (Text.trim line.toList)).bind fun text =>
    if Text.holds "-x assembler-with-cpp".toList text then none
    else (Compiler.all.find? (namesBinary text)).map fun compiler => ⟨String.ofList text, compiler⟩

end Line

/-! ### All lines -/

/-- What the lines so far leave behind. -/
structure Reader where
  current : Option String
  compiling : Bool
  transcript : Transcript
  deriving DecidableEq, Repr

/-- A transcript from which nothing can be replayed. -/
inductive Shortfall where
  | noTargets
  | noCommands (targets : Nat)
  deriving DecidableEq, Repr

def Shortfall.message : Shortfall → String
  | .noTargets => "no targets found in the build log"
  | .noCommands n => "no compiler commands found for " ++ toString n ++ " target(s)"

namespace Reader

def start : Reader := ⟨none, false, .empty⟩

/-- Moves on to a target. -/
def announce (r : Reader) (target : String) : Reader :=
  { r with current := some target, transcript := r.transcript.announce target }

/-- Takes a command into the current target, if it stands in a compile block of one. -/
def capture (r : Reader) (command : CapturedCommand) : Reader :=
  match r.compiling, r.current with
  | true, some target => { r with transcript := r.transcript.extend target [command] }
  | _, _ => r

/-- Counts a build and moves on to the target, where the line says so. -/
def heed (r : Reader) (line : String) : Reader :=
  let counted :=
    if Line.opensBuild line then { r with transcript := r.transcript.countBuild } else r
  match Line.announced? line with
  | some target => counted.announce target
  | none => counted

/-- Takes the command an indented line shows, or the block another line opens. -/
def enter (r : Reader) (line : String) : Reader :=
  if Line.isIndented line then
    match Line.command? line with
    | some command => r.capture command
    | none => r
  else { r with compiling := Line.opensCompileBlock line }

/-- One line; blank lines say nothing. -/
def feed (r : Reader) (line : String) : Reader :=
  if Line.isBlank line then r else (r.heed line).enter line

/-- The transcript, if a command was captured. -/
def finish (r : Reader) : Except Shortfall Transcript :=
  if r.transcript.targets = [] then .error .noTargets
  else if r.transcript.totalCommands = 0 then .error (.noCommands r.transcript.targets.length)
  else .ok r.transcript

end Reader

/-- The reader after some lines. -/
def readLines (lines : List String) : Reader := lines.foldl Reader.feed .start

/-- The transcript that the lines of a log hold. -/
def ofLines (lines : List String) : Except Shortfall Transcript := (readLines lines).finish

@[simp] theorem readLines_append (xs ys : List String) :
    readLines (xs ++ ys) = ys.foldl Reader.feed (readLines xs) := List.foldl_append

/-- Why a build log gives no transcript. -/
inductive LoadFailure where
  | shortfall (s : Shortfall)
  | unreadable (path : String) (cause : FileError)
  deriving DecidableEq, Repr

def LoadFailure.message : LoadFailure → String
  | .shortfall s => s.message
  | .unreadable path _ => "failed to read build log " ++ path

/-- The path that stands for the standard input. -/
def standardInput : String := "-"

/-- The text of a build log. -/
def logText (t : FileTree) (input : ByteArray) (path : String) : Except FileError String :=
  if path = standardInput then
    match Utf8.decode? input with
    | some text => .ok text
    | none => .error .invalidData
  else t.readText path

/-- The transcript of a build log. -/
def load (t : FileTree) (input : ByteArray) (path : String) : Except LoadFailure Transcript :=
  match logText t input path with
  | .error e => .error (.unreadable path e)
  | .ok text => (ofLines (Text.lines text)).mapError .shortfall

end BitcodeReplay.Transcript
