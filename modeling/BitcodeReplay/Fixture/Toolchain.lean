import BitcodeReplay.FileTree.Edit
import BitcodeReplay.ProductTree.Basic
import BitcodeReplay.Text.Lines

/-!
Stand-ins for the compilers. They honour the flags that make a compiler write bitcode, record how
they were called, and leave a given code.
-/

namespace BitcodeReplay.Fixture.Toolchain

/-- Writes every bitcode path of the output file map, if bitcode is asked for. -/
def swiftcBody : List String :=
  ["",
    "map=\"\"",
    "emit=0",
    "while [ $# -gt 0 ]; do",
    "  case \"$1\" in",
    "    -output-file-map) shift; map=\"$1\" ;;",
    "    -emit-bc) emit=1 ;;",
    "  esac",
    "  shift",
    "done",
    "[ \"$emit\" = 1 ] || return 0",
    "[ -n \"$map\" ] || return 0",
    "sed -n 's/.*\"llvm-bc\"[[:space:]]*:[[:space:]]*\"\\([^\"]*\\)\".*/\\1/p' \"$map\" | " ++
      "while IFS= read -r out; do",
    "  mkdir -p \"$(dirname \"$out\")\"",
    "  printf 'BC' > \"$out\"",
    "done",
    ""]

/-- Writes the temporaries of every source into the working directory, if they are asked for. -/
def clangBody : List String :=
  ["",
    "save=0",
    "for arg in \"$@\"; do",
    "  [ \"$arg\" = \"-save-temps=cwd\" ] && save=1",
    "done",
    "[ \"$save\" = 1 ] || return 0",
    "for arg in \"$@\"; do",
    "  case \"$arg\" in",
    "    *.c|*.m|*.mm|*.cpp)",
    "      base=$(basename \"$arg\")",
    "      stem=\"$\x7bbase%.*\x7d\"",
    "      printf 'BC' > \"$stem-arm64.bc\"",
    "      : > \"$stem-arm64.i\"",
    "      : > \"$stem-arm64.o\"",
    "      ;;",
    "  esac",
    "done",
    ""]

def logPath (directory : String) : String := Path.join directory "invocations.log"

def clangPath (directory : String) : String := Path.join directory "clang"

def swiftcPath (directory : String) : String := Path.join directory "swiftc"

/-- The script of a compiler in a directory. -/
def script (directory : String) (exitCode : Int) (body : List String) : String :=
  String.intercalate "\n"
    (["echo \"$0 $*\" >> '" ++ logPath directory ++ "'", "compile() \x7b"] ++ body ++
      ["\x7d", "compile \"$@\"", "exit " ++ toString exitCode])

/-- Writes a script that can be run. -/
def writeExecutable (t : FileTree) (path body : String) : Except WriteFailure FileTree :=
  match t.writeFile path ("#!/bin/sh\n" ++ body ++ "\n").toUTF8 with
  | .error e => .error ⟨path, e⟩
  | .ok written =>
    match written.find? path with
    | some (loc, .file bytes _) => .ok (written.put loc (.file bytes true))
    | _ => .error ⟨path, .notFound⟩

/-- Writes both compilers into a directory. -/
def install (t : FileTree) (directory : String) (exitCode : Int) :
    Except WriteFailure FileTree := do
  let t ← writeExecutable t (swiftcPath directory) (script directory exitCode swiftcBody)
  writeExecutable t (clangPath directory) (script directory exitCode clangBody)

/-- How the compilers of a directory were called, in order. -/
def invocations (t : FileTree) (directory : String) : List String :=
  match t.readText (logPath directory) with
  | .ok text => Text.lines text
  | .error _ => []

end BitcodeReplay.Fixture.Toolchain
