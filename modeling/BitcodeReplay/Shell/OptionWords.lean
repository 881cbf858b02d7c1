import BitcodeReplay.Shell.Course

/-!
The option words of builtins. A word that starts with a dash holds letters, each of which may take
an argument: what is left of the word, or the next word. Two dashes end the options.
-/

namespace BitcodeReplay.Shell.OptionWords

inductive Failure where
  | unknown (letter : Char)
  | noArgument (letter : Char)
  deriving DecidableEq, Repr

def Failure.message : Failure → String
  | .unknown letter => "Illegal option -" ++ String.singleton letter
  | .noArgument letter => "No arg for -" ++ String.singleton letter ++ " option"

/-- Whether a letter is allowed, and whether it takes an argument. A colon follows those that do. -/
def takesArgument? (letters : List Char) (letter : Char) : Option Bool :=
  match letters with
  | [] => none
  | x :: ':' :: rest => if x = letter then some true else takesArgument? rest letter
  | x :: rest => if x = letter then some false else takesArgument? rest letter

/-- The options that some letters and the words after them give, and the operands. -/
def read (letters : List Char) : Octets → List Octets →
    Except Failure (List (Char × Octets) × List Octets)
  | [], ['-', '-'] :: words => .ok ([], words)
  | [], ('-' :: letter :: more) :: words => read letters (letter :: more) words
  | [], words => .ok ([], words)
  | letter :: more, words =>
    match takesArgument? letters letter with
    | none => .error (.unknown letter)
    | some false =>
      (read letters more words).map fun (given, operands) => ((letter, []) :: given, operands)
    | some true =>
      if more ≠ [] then
        (read letters [] words).map fun (given, operands) => ((letter, more) :: given, operands)
      else
        match words with
        | [] => .error (.noArgument letter)
        | argument :: words =>
          (read letters [] words).map fun (given, operands) =>
            ((letter, argument) :: given, operands)
termination_by group words => (words.map fun w => w.length + 1).foldr (· + ·) 0 + group.length
decreasing_by all_goals simp <;> omega

end OptionWords

namespace Act

/-- The options and the operands of a builtin, which fails if a letter is not allowed. -/
def options (letters : String) (words : List Octets) :
    Act (Option (List (Char × Octets) × List Octets)) := do
  match OptionWords.read letters.toList [] words with
  | .ok found => return some found
  | .error e =>
    abort e.message
    return none

/-- The operands of a builtin that knows no options. -/
def operands (words : List Octets) : Act (Option (List Octets)) :=
  return (← options "" words).map (·.2)

end Act

end BitcodeReplay.Shell
