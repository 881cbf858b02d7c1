import BitcodeReplay.Tool.Awk.Evaluate
import BitcodeReplay.Tool.Awk.Reader

/-!
The tool that runs programs that select records: its options, and what it says when a program cannot be
run.
-/

namespace BitcodeReplay.Tool

open Shell

namespace Awk

/-- What the words of a command ask for: programs in files, the separator, and values of variables. -/
structure Request where
  files : List Octets
  separator : Option Octets
  assignments : List Octets
  operands : List Octets

/-- Why the words cannot be taken. -/
inductive Refusal where
  | noArgument (letter : Char)
  | unknown (word : Octets)
  | version
  | help

/-- Reads the words of a command. The first argument bounds them. -/
def Request.read : Nat → Request → List Octets → Except Refusal Request
  | 0, r, words => .ok { r with operands := words }
  | bound + 1, r, words =>
    match words with
    | ['-', '-'] :: rest => .ok { r with operands := rest }
    | ('-' :: '-' :: name) :: _ =>
      if name.isPrefixOf (text "version") then .error .version
      else if name.isPrefixOf (text "help") || name.isPrefixOf (text "usage") then .error .help
      else .error (.unknown ('-' :: '-' :: name))
    | ('-' :: letter :: more) :: rest =>
      if ['f', 'F', 'v', 'W'].contains letter then
        match more, rest with
        | [], [] => .error (.noArgument letter)
        | _, _ =>
          let argument := if more = [] then rest.headD [] else more
          let rest := if more = [] then rest.drop 1 else rest
          if letter = 'f' then read bound { r with files := r.files ++ [argument] } rest
          else if letter = 'F' then read bound { r with separator := some argument } rest
          else if letter = 'v' then read bound { r with assignments := r.assignments ++ [argument] } rest
          else if argument != [] && argument.isPrefixOf (text "version") then .error .version
          else if argument != [] && (argument.isPrefixOf (text "help") || argument.isPrefixOf (text "usage")) then
            .error .help
          else read bound r rest
      else .error (.unknown ('-' :: letter :: more))
    | _ => .ok { r with operands := words }

def usage (name : Octets) : Octets :=
  text "Usage: " ++ name ++ text " [Options] [Program] [file ...]

Program:
    The -f option value is the name of a file containing program text.
    If no -f option is given, a \"--\" ends option processing; the following
    parameters are the program text.

Options:
    -f program-file  Program  text is read from file instead of from the
                     command-line.  Multiple -f options are accepted.
    -F value         sets the field separator, FS, to value.
    -v var=value     assigns value to program variable var.
    --               unambiguous end of options.

    Implementation-specific options are prefixed with \"-W\".  They can be
    abbreviated:

    -W version       show version information and exit.
    -W dump          show assembler-like listing of program and exit.
    -W help          show this message and exit.
    -W interactive   set unbuffered output, line-buffered input.
    -W exec file     use file as program as well as last option.
    -W random=number set initial random seed.
    -W sprintf=number adjust size of sprintf buffer.
    -W posix_space   do not consider \"\\n\" a space.
    -W usage         show this message and exit.
"

/-- The items of all files of a program; a complaint if one cannot be read. -/
def itemsOf (operand : Octets) (files : List Octets) : Act (Except Octets (List Item)) := do
  if files = [] then return .ok (Token.ofText [] (operand ++ ['\n']))
  let mut all := []
  for file in files do
    match ← contentOf (if file = text "/dev/stdin" then ['-'] else file) with
    | .ok t =>
      let own := Token.ofText (file ++ text ": ") t
      all := (all.filter fun i : Item => i.token != .ending) ++ own
    | .error e => return .error (text "cannot open " ++ file ++ text (" (" ++ e.reason ++ ")"))
  return .ok all

/-- The state of a program before it runs. -/
def Machine.start (p : Program) (operands : List Octets) (environment : List Octets) : Machine :=
  let value := fun name : String =>
    match name with
    | "FS" | "OFS" => Value.text [' ']
    | "ORS" | "RS" => .text ['\n']
    | "SUBSEP" => .text ['\x1c']
    | "CONVFMT" | "OFMT" => .text (text "%.6g")
    | "NR" | "FNR" | "NF" => .ofNat 0
    | "ARGC" => .ofNat operands.length
    | _ => .unset
  let arguments : Table Value :=
    operands.zipIdx.foldl (fun t (word, i) => t.put (.number i) (.given word)) .empty
  let surroundings : Table Value :=
    environment.foldl (fun t word =>
      match bindingOf? word with
      | some (name, value) => t.put (.text name) (.given value)
      | none => t) .empty
  let tables := (Array.replicate p.shared.size (Table.empty : Table Value))
    |>.set! (placeOf "ARGV") arguments |>.set! (placeOf "ENVIRON") surroundings
  { shared := p.shared.map value
    frame := #[]
    tables := tables
    ranges := .replicate p.ranges false
    record := ⟨[], none, false⟩
    input := none
    begun := false
    argument := 1
    feeds := []
    sinks := []
    patterns := []
    generator := .ofSeed 1
    seed := .ofNat 0
    result := .unset
    status := 0 }

/-- Gives variables the values that the words ask for. -/
def prepare (p : Program) (r : Request) : Run Unit := do
  match r.separator with
  | some t => Run.setVariable (.shared (placeOf "FS")) (.given (Token.unescape (t.length + 1) t))
  | none => pure ()
  for word in r.assignments do
    match Run.assignment? word with
    | some (name, value) => Run.assignNamed p name value
    | none => pure ()

/-- Runs a program, and leaves its status. -/
def runProgram (start : Starter) (p : Program) (r : Request) (machine : Machine) : Act Unit := do
  let whole : Run Unit := do
    prepare p r
    Run.program p start
    Run.closeAll
  let (result, m) ← whole.run.run machine
  match result with
  | .ok () => Act.setStatus m.status
  | .error (.failed message) =>
    say message
    let _ ← (Run.closeAll).run.run m
    Act.setStatus 2
  | .error _ => Act.setStatus m.status

/-- Runs a program over the records of its input. -/
def run (start : Starter) (words : List Octets) : Act Unit := do
  let name := (((← get).name.splitOn '/').getLast?).getD []
  modify fun s => { s with name := name }
  match Request.read (words.length + 1) ⟨[], none, [], []⟩ words with
  | .error .version => Act.put (text "mawk 1.3.4 20200120\n")
  | .error .help => Act.put (usage (text "mawk"))
  | .error (.noArgument letter) => failWith 2 (text "option -" ++ letter :: text " lacks argument")
  | .error (.unknown word) => failWith 2 (text "not an option: " ++ word)
  | .ok r =>
    match r.files, r.operands with
    | [], [] => modify fun s => s.report (usage (text "mawk"))
    | files, operands =>
      match r.assignments.find? fun word => (Run.assignment? word).isNone with
      | some word => failWith 2 (text "improper assignment: -v " ++ word)
      | none =>
        match ← itemsOf (operands.headD []) files with
        | .error message => failWith 2 message
        | .ok items =>
          match Program.read items with
          | .error mistakes =>
            for mistake in mistakes do say mistake
            Act.setStatus 2
          | .ok p =>
            let operands := if files = [] then operands.drop 1 else operands
            let machine := Machine.start p (name :: operands) (environmentWords (← get))
            runProgram start p r machine

end Awk

end BitcodeReplay.Tool
