import BitcodeReplay.Text.Utf8

/-!
Shell scripts as values. A word is kept in parts, so that what was quoted is known when the word is
expanded.
-/

namespace BitcodeReplay.Shell

/-- What an expansion makes of the value of a parameter. The flag of the first four says that an
empty value counts as none. -/
inductive Operator where
  | orElse (empty : Bool)
  | orAssign (empty : Bool)
  | orFail (empty : Bool)
  | ifSet (empty : Bool)
  | stripStart (longest : Bool)
  | stripEnd (longest : Bool)
  | value
  | length
  deriving DecidableEq, Repr

/-- What a redirection does with its target. -/
inductive Direction where
  | read
  | readWrite
  | write
  | overwrite
  | append
  | duplicate
  deriving DecidableEq, Repr

mutual

/-- A part of a word. A part that is broken stands for an expansion that has no meaning. -/
inductive Part where
  | text (chars : Octets) (quoted : Bool)
  | parameter (name : Octets) (operator : Operator) (argument : List Part) (quoted : Bool)
  | substitution (body : List Command) (quoted : Bool)
  | arithmetic (expression : List Part) (quoted : Bool)
  | broken

/-- A channel number and what is to be read or written there. A document stands in the script
itself, under a number of its own. -/
inductive Redirection where
  | path (number : Nat) (direction : Direction) (target : List Part)
  | document (number : Nat) (index : Nat)

inductive Command where
  | simple (line : Nat) (assignments : List (Octets × List Part)) (words : List (List Part))
      (redirections : List Redirection)
  | pipeline (stages : List Command)
  | negated (command : Command)
  | both (first second : Command)
  | either (first second : Command)
  | background (command : Command)
  | group (body : List Command)
  | subshell (line : Nat) (body : List Command) (redirections : List Redirection)
  | branch (condition body otherwise : List Command)
  | loop (endsOnSuccess : Bool) (condition body : List Command)
  | each (line : Nat) (name : Octets) (words : Option (List (List Part))) (body : List Command)
  | choice (line : Nat) (subject : List Part) (arms : List (List (List Part) × List Command))
  | define (line : Nat) (name : Octets) (body : Command)
  | redirected (line : Nat) (command : Command) (redirections : List Redirection)

end

abbrev Word := List Part

/-- The builtins that end the shell when they fail, and before which an assignment lasts. -/
def specialBuiltins : List String :=
  [":", "break", "continue", "exit", "return", "shift", "export", "readonly", "unset", "set",
    "trap", "eval", "exec", ".", "times", "local"]

/-- A name and a value, if a word starts with an assignment. -/
def assignment? (isStart isMore : Char → Bool) : Word → Option (Octets × Word)
  | .text chars false :: more =>
    let name := chars.takeWhile isMore
    match name, chars.drop name.length with
    | c :: _, '=' :: value =>
      if isStart c then some (name, if value = [] then more else .text value false :: more)
      else none
    | _, _ => none
  | _ => none

end BitcodeReplay.Shell
