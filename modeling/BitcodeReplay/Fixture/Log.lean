import BitcodeReplay.Text.Search

/-!
Build logs for trying things out, in the style of the current build system.
-/

namespace BitcodeReplay.Fixture.Log

/-- What says which target a step belongs to. -/
def owner (target : String) : String :=
  " (in target '" ++ target ++ "' from project '" ++ target ++ "')"

/-- The step that announces a target. -/
def announcement (target : String) : String :=
  "\nWriteAuxiliaryFile /tmp/" ++ target ++ ".hmap" ++ owner target ++ "\n"

def isSwift (command : String) : Bool := Text.holds "/swiftc ".toList command.toList

/-- What heads the step of a command. -/
def header (target command : String) : String :=
  if isSwift command then
    "SwiftDriver " ++ target ++ " normal arm64 com.apple.xcode.tools.swift.compiler"
  else
    "CompileC /tmp/" ++ target ++ ".o /src/" ++ target ++
      ".m normal arm64 objective-c com.apple.compilers.llvm.clang.1_0.compiler"

/-- The step of a command. -/
def step (target command : String) : String :=
  "\n" ++ header target command ++ owner target ++ "\n    cd /src\n    " ++ command ++ "\n"

/-- The steps of a target. -/
def steps (target : String) (commands : List String) : String :=
  announcement target ++ String.join (commands.map (step target))

/-- The log of one build of some targets. -/
def text (targets : List (String × List String)) : String :=
  "Build description signature: 0123456789abcdef\n" ++
    String.join (targets.map fun entry => steps entry.1 entry.2)

end BitcodeReplay.Fixture.Log
