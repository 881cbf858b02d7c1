import BitcodeReplay.Shell.Format
import BitcodeReplay.Text.Utf8
import BitcodeReplay.Text.Regex

/-!
The regular expressions of programs that select records. All operators stand without a backslash, a
backslash may write a character, and a brace stands for itself.
-/

namespace BitcodeReplay.Tool.Awk.Pattern

open Text (Regex)

/-- Why an expression cannot be read. -/
inductive Failure where
  | openGroup
  | noOperand
  | badSet
  deriving DecidableEq, Repr

def Failure.message : Failure → String
  | .openGroup => "missing ')'"
  | .noOperand => "missing operand"
  | .badSet => "bad class -- [], [^] or ["

/-- The character that a backslash and what follows it write, and what is left. -/
def escaped : Octets → Char × Octets
  | [] => ('\\', [])
  | c :: rest =>
    if Shell.Format.isOctal c then
      let digits := ((c :: rest).take 3).takeWhile Shell.Format.isOctal
      (Shell.Format.octalByte digits, (c :: rest).drop digits.length)
    else
      match c with
      | 'x' =>
        let digits := (rest.take 2).takeWhile (Shell.Arithmetic.isDigitIn 16)
        if digits = [] then ('x', rest)
        else (Char.ofNat (Shell.Arithmetic.digitsValue 16 digits), rest.drop digits.length)
      | 'a' => ('\x07', rest)
      | 'b' => ('\x08', rest)
      | 'f' => ('\x0c', rest)
      | 'n' => ('\n', rest)
      | 'r' => ('\r', rest)
      | 't' => ('\t', rest)
      | 'v' => ('\x0b', rest)
      | c => (c, rest)

/-- The text of a set up to the bracket that closes it, with the characters that backslashes write, and
what is left. The first argument bounds its length. -/
def setText : Nat → Octets → Option (Octets × Octets)
  | 0, _ | _, [] => none
  | _, ']' :: rest => some ([']'], rest)
  | bound + 1, '\\' :: rest =>
    let (c, rest) := escaped rest
    (setText bound rest).map fun (t, rest) => ('\\' :: c :: t, rest)
  | bound + 1, '[' :: ':' :: rest =>
    match Text.className? [] rest with
    | some (name, rest) =>
      (setText bound rest).map fun (t, rest) => ('[' :: ':' :: name.toList ++ [':', ']'] ++ t, rest)
    | none => (setText bound (':' :: rest)).map fun (t, rest) => ('[' :: t, rest)
  | bound + 1, c :: rest => (setText bound rest).map fun (t, rest) => (c :: t, rest)

/-- The set behind an opening bracket, and what is left. -/
def set? (t : Octets) : Option (Regex × Octets) := do
  let negated := t.head? = some '^'
  let start : Octets := if negated then ['^'] else []
  let rest := if negated then t.drop 1 else t
  let first : Octets := if rest.head? = some ']' then ['\\', ']'] else []
  let rest := if rest.head? = some ']' then rest.drop 1 else rest
  let (body, rest) ← setText (t.length + 1) rest
  let (s, _) ← Text.characterSet? true ['^'] (start ++ first ++ body)
  let isKnown := s.items.all fun
    | .named name => Text.classNames.contains name
    | .range _ _ => true
  let ordered := s.items.map fun
    | .range low high => if high < low then .range high low else .range low high
    | item => item
  if isKnown then some (.one (.set { s with items := ordered }), rest) else none

/-- How often an expression is repeated, by the operators behind it. -/
def repeated (r : Regex) : Octets → Regex × Octets
  | '*' :: rest => repeated (.repeated r 0 none) rest
  | '+' :: rest => repeated (.repeated r 1 none) rest
  | '?' :: rest => repeated (.repeated r 0 (some 1)) rest
  | rest => (r, rest)

mutual

/-- Alternatives, inside so many parentheses, and what is left. -/
def choice : Nat → Nat → Octets → Except Failure (Regex × Octets)
  | 0, _, t => .ok (.empty, t)
  | bound + 1, depth, t => do
    let (first, rest) ← sequence bound depth t
    match rest with
    | '|' :: rest =>
      let (second, rest) ← choice bound depth rest
      return (.alt first second, rest)
    | rest => return (first, rest)

/-- Expressions in a row. -/
def sequence : Nat → Nat → Octets → Except Failure (Regex × Octets)
  | 0, _, t => .ok (.empty, t)
  | bound + 1, depth, t => do
    let (first, rest) ← atom bound depth t
    let (first, rest) := repeated first rest
    match rest with
    | [] | '|' :: _ => return (first, rest)
    | ')' :: _ =>
      if depth = 0 then
        let (second, rest) ← sequence bound depth rest
        return (.cat first second, rest)
      else return (first, rest)
    | rest =>
      let (second, rest) ← sequence bound depth rest
      return (.cat first second, rest)

/-- One expression. -/
def atom : Nat → Nat → Octets → Except Failure (Regex × Octets)
  | 0, _, t => .ok (.empty, t)
  | bound + 1, depth, t =>
    match t with
    | [] | '|' :: _ | '*' :: _ | '+' :: _ | '?' :: _ => .error .noOperand
    | '(' :: rest => do
      let (inner, rest) ← choice bound (depth + 1) rest
      match rest with
      | ')' :: rest => return (inner, rest)
      | _ => .error .openGroup
    | ')' :: rest =>
      if depth = 0 then .ok (.one (.char ')'), rest) else .error .noOperand
    | '.' :: rest => .ok (.one .any, rest)
    | '^' :: rest => .ok (.anchor .textStart, rest)
    | '$' :: rest => .ok (.anchor .textEnd, rest)
    | '[' :: rest =>
      match set? rest with
      | some found => .ok found
      | none => .error .badSet
    | '\\' :: rest =>
      let (c, rest) := escaped rest
      .ok (.one (.char c), rest)
    | c :: rest => .ok (.one (.char c), rest)

end

/-- Reads an expression. The empty one matches everywhere. -/
def read (t : Octets) : Except Failure Regex :=
  if t = [] then .ok .empty
  else (choice (4 * t.length + 8) 0 t).map (·.1)

/-- An expression that stands for a text. -/
def ofText (t : Octets) : Regex := t.foldr (fun c r => .cat (.one (.char c)) r) .empty

end BitcodeReplay.Tool.Awk.Pattern
