/-!
The two compiler families whose invocations can be replayed, and an invocation as a build log
shows it.
-/

namespace BitcodeReplay

/-- A compiler family. -/
inductive Compiler where
  | clang
  | swiftc
  deriving DecidableEq, Repr

namespace Compiler

/-- The families, in the order in which a command line is tried against them. -/
def all : List Compiler := [.swiftc, .clang]

/-- The file name of the compiler's executable. -/
def binaryName : Compiler → String
  | .clang => "clang"
  | .swiftc => "swiftc"

/-- Whether the family lists what it writes in an output file map. -/
def usesOutputFileMap : Compiler → Bool
  | .clang => false
  | .swiftc => true

theorem mem_all (c : Compiler) : c ∈ all := by cases c <;> simp [all]

end Compiler

/-- A compiler command line, quoted as the build log has it. -/
structure CapturedCommand where
  text : String
  compiler : Compiler
  deriving DecidableEq, Repr

end BitcodeReplay
