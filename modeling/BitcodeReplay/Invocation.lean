import BitcodeReplay.Compiler
import BitcodeReplay.Text.ShellWords

/-!
Compiler invocations that write bitcode. A captured command line loses the flags that conflict with
bitcode and gains the one that makes its family write it.
-/

namespace BitcodeReplay

/-- A compiler run that leaves bitcode behind. -/
structure Invocation where
  program : String
  arguments : List String
  compiler : Compiler
  outputFileMap : Option String
  deriving DecidableEq, Repr

namespace Invocation

/-- Why a captured command cannot be run for its bitcode, or an invocation cannot be written as a
line. -/
inductive Failure where
  | unsplittable (command : String)
  | empty
  | unquotable
  | missingMapPath
  deriving DecidableEq, Repr

def Failure.message : Failure → String
  | .unsplittable command => "cannot split compiler command: " ++ command
  | .empty => "empty compiler command"
  | .unquotable => "cannot quote compiler argument containing a NUL byte"
  | .missingMapPath => "-output-file-map is missing its path"

/-- The flags no invocation keeps. -/
def strippedFlags : List String :=
  ["-parseable-output", "-use-frontend-parseable-output", "-experimental-emit-module-separately"]

/-- The flags that turn a family's bitcode into assembly. -/
def embedFlags : Compiler → List String
  | .clang => ["-fembed-bitcode", "-fembed-bitcode-marker"]
  | .swiftc => ["-embed-bitcode", "-embed-bitcode-marker"]

/-- The flag that makes a family write bitcode. -/
def bitcodeFlag : Compiler → String
  | .clang => "-save-temps=cwd"
  | .swiftc => "-emit-bc"

def mapFlag : String := "-output-file-map"

def outputFlag : String := "-o"

/-- Appends a word unless it is there. -/
def ensure (word : String) (words : List String) : List String :=
  if words.contains word then words else words ++ [word]

/-- The word after the first map flag; an error if nothing follows it. -/
def mapPath : List String → Except Failure (Option String)
  | [] => .ok none
  | word :: rest =>
    if word = mapFlag then
      match rest with
      | [] => .error .missingMapPath
      | path :: _ => .ok (some path)
    else mapPath rest

/-- Without embedding flags, and without output flags and the word after each. -/
def withoutOutput : List String → List String
  | [] => []
  | [word] => if word = outputFlag ∨ word ∈ embedFlags .clang then [] else [word]
  | word :: next :: rest =>
    if word = outputFlag then withoutOutput rest
    else if word ∈ embedFlags .clang then withoutOutput (next :: rest)
    else word :: withoutOutput (next :: rest)

/-- The arguments of a family and the output file map they name. -/
def adapt : Compiler → List String → Except Failure (List String × Option String)
  | .clang, words => .ok (ensure (bitcodeFlag .clang) (withoutOutput words), none)
  | .swiftc, words =>
    let kept := words.filter (· ∉ embedFlags .swiftc)
    (mapPath kept).map fun path => (ensure (bitcodeFlag .swiftc) kept, path)

/-- The invocation made of the words of a command line. -/
def ofWords (compiler : Compiler) : List String → Except Failure Invocation
  | [] => .error .empty
  | program :: rest =>
    (adapt compiler (rest.filter (· ∉ strippedFlags))).map fun adapted =>
      ⟨program, adapted.1, compiler, adapted.2⟩

/-- The invocation for a captured command. -/
def ofCaptured (command : CapturedCommand) : Except Failure Invocation :=
  match ShellWords.split? command.text with
  | none => .error (.unsplittable command.text)
  | some words => ofWords command.compiler words

/-- The invocation as one shell line. -/
def commandLine (i : Invocation) : Except Failure String :=
  match ShellWords.join? (i.program :: i.arguments) with
  | none => .error .unquotable
  | some line => .ok line

/-- The invocation as a log would show it. -/
def toCaptured (i : Invocation) : Except Failure CapturedCommand :=
  i.commandLine.map fun line => ⟨line, i.compiler⟩

end Invocation

end BitcodeReplay
