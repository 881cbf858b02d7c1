import BitcodeReplay.Text.Bracket

/-!
Shell patterns: a star stands for any text, a question mark for any character, and brackets for one
character of a set. A backslash makes the character after it stand for itself.
-/

namespace BitcodeReplay.Shell

inductive PatternItem where
  | char (c : Char)
  | any
  | set (s : Text.CharacterSet)
  | star
  deriving DecidableEq, Repr

abbrev Pattern := List PatternItem

namespace Pattern

/-- Reads a pattern; the first argument bounds the number of its items. A bracket that nothing
closes stands for itself. -/
def itemsOf : Nat → List Char → Pattern
  | 0, _ => []
  | _ + 1, [] => []
  | bound + 1, '*' :: rest => .star :: itemsOf bound rest
  | bound + 1, '?' :: rest => .any :: itemsOf bound rest
  | bound + 1, '\\' :: c :: rest => .char c :: itemsOf bound rest
  | bound + 1, '[' :: rest =>
    match Text.characterSet? true ['!'] rest with
    | some (s, rest) => .set s :: itemsOf bound rest
    | none => .char '[' :: itemsOf bound rest
  | bound + 1, c :: rest => .char c :: itemsOf bound rest

def ofText (text : List Char) : Pattern := itemsOf text.length text

/-- What remains of a text after each of its starts, the shortest start first. -/
def suffixes : List Char → List (List Char)
  | [] => [[]]
  | c :: rest => (c :: rest) :: suffixes rest

/-- Whether a pattern covers a whole text. -/
def accepts : Pattern → List Char → Bool
  | [], text => text.isEmpty
  | .star :: p, text => (suffixes text).any fun rest => accepts p rest
  | .char c :: p, text =>
    match text with
    | x :: rest => x == c && accepts p rest
    | [] => false
  | .any :: p, text =>
    match text with
    | _ :: rest => accepts p rest
    | [] => false
  | .set s :: p, text =>
    match text with
    | x :: rest => s.holds x && accepts p rest
    | [] => false

/-- The text without the shortest or the longest start that a pattern covers. -/
def stripStart (p : Pattern) (longest : Bool) (text : List Char) : List Char :=
  let counts := List.range (text.length + 1)
  let counts := if longest then counts.reverse else counts
  match counts.find? fun n => p.accepts (text.take n) with
  | some n => text.drop n
  | none => text

/-- The text without the shortest or the longest end that a pattern covers. -/
def stripEnd (p : Pattern) (longest : Bool) (text : List Char) : List Char :=
  let counts := List.range (text.length + 1)
  let counts := if longest then counts else counts.reverse
  match counts.find? fun n => p.accepts (text.drop n) with
  | some n => text.take n
  | none => text

end Pattern

end BitcodeReplay.Shell
