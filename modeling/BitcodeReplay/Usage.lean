import BitcodeReplay.Path

/-!
The command line: its arguments, the texts it shows, and what it refuses. Arguments are read from the
left. A value is checked when the next argument has been recognised, so that an argument that cannot
be recognised is refused before a bad value in front of it.
-/

namespace BitcodeReplay.Usage

/-- What a command line asks for. -/
structure Arguments where
  log : String
  archive : String
  pifCache : String
  buildCache : Option String
  outputPath : Option String
  jobs : Option Nat
  dryRun : Bool
  dumpGraph : Bool
  verbose : Bool
  deriving DecidableEq, Repr

/-- Where the bitcode goes: into the archive, unless a place is given. -/
def Arguments.outputDir (a : Arguments) : String :=
  a.outputPath.getD (Path.join a.archive "IR")

/-- Why there is nothing to run. -/
inductive Stop where
  | missingArgument
  | unknownArgument
  | repeated
  | badValue
  | surplusValue
  | rejected (message : String)
  | help
  | version
  deriving DecidableEq, Repr

/-- The parameters that take a value. -/
inductive Parameter where
  | log
  | archive
  | pifCache
  | buildCache
  | outputPath
  | jobs
  deriving DecidableEq, Repr

/-- The options without a value. -/
inductive Switch where
  | dryRun
  | dumpGraph
  | verbose
  | help
  | version
  deriving DecidableEq, Repr

/-- What an option stands for. -/
inductive Meaning where
  | parameter (p : Parameter)
  | switch (s : Switch)
  deriving DecidableEq, Repr

def longOption? (name : String) : Option Meaning :=
  match name with
  | "pif-cache" => some (.parameter .pifCache)
  | "build-cache" => some (.parameter .buildCache)
  | "output-path" => some (.parameter .outputPath)
  | "jobs" => some (.parameter .jobs)
  | "dry-run" => some (.switch .dryRun)
  | "dump-dependency-graph" => some (.switch .dumpGraph)
  | "verbose" => some (.switch .verbose)
  | "help" => some (.switch .help)
  | "version" => some (.switch .version)
  | _ => none

def shortOption? (letter : Char) : Option Meaning :=
  match letter with
  | 'o' => some (.parameter .outputPath)
  | 'j' => some (.parameter .jobs)
  | 'v' => some (.switch .verbose)
  | 'h' => some (.switch .help)
  | 'V' => some (.switch .version)
  | _ => none

/-- What has been read so far. The value of the parameter that waits is not checked yet. -/
structure State where
  paths : List (Parameter × String)
  jobs : Option Nat
  switches : List Switch
  waiting : Option (Parameter × Option String)
  operands : Nat
  operandsOnly : Bool
  deriving DecidableEq, Repr

namespace State

def start : State := ⟨[], none, [], none, 0, false⟩

end State

/-- A number of at most 64 bits, in decimal digits after an optional plus sign. -/
def readNumber? (text : List Char) : Option Nat :=
  let digits := match text with
    | '+' :: rest => rest
    | _ => text
  if digits = [] ∨ !digits.all Char.isDigit then none
  else
    let n := digits.foldl (fun n c => 10 * n + (c.toNat - 48)) 0
    if n < Nat.pow 2 64 then some n else none

/-- The most targets that may be compiled at once. -/
def maxJobs : Nat := 64

def readJobs (text : String) : Except Stop Nat :=
  match readNumber? text.toList with
  | none => .error (.rejected (text ++ " is not a valid number"))
  | some n =>
    if 1 ≤ n ∧ n ≤ maxJobs then .ok n
    else .error (.rejected ("jobs must be between 1 and " ++ toString maxJobs))

/-- Gives a parameter its value, which it may have only once. -/
def assign (s : State) (p : Parameter) (value : String) : Except Stop State :=
  if p = .jobs then
    if s.jobs.isSome then .error .repeated
    else (readJobs value).map fun n => { s with jobs := some n }
  else if (s.paths.lookup p).isSome then .error .repeated
  else if value = "" then .error .badValue
  else .ok { s with paths := s.paths ++ [(p, value)] }

/-- Gives the parameter that waits its value. -/
def settle (s : State) : Except Stop State :=
  match s.waiting with
  | none => .ok s
  | some (_, none) => .error .badValue
  | some (p, some value) => assign { s with waiting := none } p value

/-- A switch, which may be given only once. -/
def flip (s : State) (which : Switch) : Except Stop State := do
  let s ← settle s
  match which with
  | .help => throw .help
  | .version => throw .version
  | which => if which ∈ s.switches then throw .repeated else
    return { s with switches := s.switches ++ [which] }

/-- A parameter, with the value that is attached to it or else in the next argument. -/
def give (s : State) (p : Parameter) (attached : Option String) : Except Stop State := do
  let s ← settle s
  match attached with
  | some value => assign s p value
  | none => return { s with waiting := some (p, none) }

/-- An option of a long name, without its dashes. -/
def readLong (s : State) (text : List Char) : Except Stop State :=
  let name := text.takeWhile (· != '=')
  let attached := match text.dropWhile (· != '=') with
    | _ :: value => some (String.ofList value)
    | [] => none
  match longOption? (String.ofList name), attached with
  | none, _ => .error .unknownArgument
  | some (.switch which), none => flip s which
  | some (.switch _), some _ => .error .surplusValue
  | some (.parameter p), attached => give s p attached

/-- Options of one letter, without their dash. What follows a parameter is its value, with or
without an equals sign. -/
def readShort (s : State) : List Char → Except Stop State
  | [] => .ok s
  | c :: rest =>
    match shortOption? c with
    | none => .error .unknownArgument
    | some (.switch which) => do readShort (← flip s which) rest
    | some (.parameter p) =>
      match rest with
      | [] => give s p none
      | '=' :: value => give s p (some (String.ofList value))
      | value => give s p (some (String.ofList value))

/-- An argument that is no option: the log, then the archive. -/
def readOperand (s : State) (value : String) : Except Stop State :=
  match s.operands with
  | 0 => do return { ← settle s with waiting := some (.log, some value), operands := 1 }
  | 1 => do return { ← settle s with waiting := some (.archive, some value), operands := 2 }
  | _ => .error .unknownArgument

/-- One argument. -/
def read (s : State) (argument : String) : Except Stop State :=
  if s.operandsOnly then readOperand s argument
  else
    match argument.toList with
    | ['-', '-'] => .ok { s with operandsOnly := true }
    | '-' :: '-' :: text => readLong s text
    | '-' :: c :: text => readShort s (c :: text)
    | _ =>
      match s.waiting with
      | some (p, none) => .ok { s with waiting := some (p, some argument) }
      | _ => readOperand s argument

/-- What the arguments ask for, if none is missing. -/
def finish (s : State) : Except Stop Arguments := do
  let s ← settle s
  match s.paths.lookup .log, s.paths.lookup .archive, s.paths.lookup .pifCache with
  | some log, some archive, some pifCache =>
    return {
      log := log
      archive := archive
      pifCache := pifCache
      buildCache := s.paths.lookup .buildCache
      outputPath := s.paths.lookup .outputPath
      jobs := s.jobs
      dryRun := .dryRun ∈ s.switches
      dumpGraph := .dumpGraph ∈ s.switches
      verbose := .verbose ∈ s.switches }
  | _, _, _ => throw .missingArgument

/-- What a command line asks for, without the name of the program. -/
def parse (arguments : List String) : Except Stop Arguments := do
  finish (← arguments.foldlM read .start)

/-- The answer to a question for the version. -/
def versionText : String := "gen-ir 0.1.0\n"

/-- The answer to a question for help. -/
def helpText : String :=
  String.join (List.map (· ++ "\n")
    ["Replays Xcode compiler invocations to emit LLVM bitcode for every target in an archive.",
     "",
     "Usage: gen-ir [OPTIONS] --pif-cache <DIR> <LOG> <ARCHIVE>",
     "",
     "Arguments:",
     "  <LOG>      Build log of a clean `xcodebuild archive` run, or `-` for stdin",
     "  <ARCHIVE>  The `.xcarchive` produced by that build",
     "",
     "Options:",
     "      --pif-cache <DIR>        Root of the PIF cache the build wrote (`.../XCBuildData/PIFCache`)",
     "      --build-cache <DIR>      Build products directory to clear of dangling symlinks before " ++
       "replaying commands",
     "  -o, --output-path <DIR>      Directory receiving the IR tree; defaults to `<ARCHIVE>/IR`",
     "  -j, --jobs <N>               Set the number of targets compiled in parallel",
     "      --dry-run                Parse inputs and build the dependency graph without running " ++
       "compilers",
     "      --dump-dependency-graph  Write the dependency graph to `<ARCHIVE>/graph.dot`",
     "  -v, --verbose                Enable verbose logging output",
     "  -h, --help                   Print help",
     "  -V, --version                Print version"])

end BitcodeReplay.Usage
