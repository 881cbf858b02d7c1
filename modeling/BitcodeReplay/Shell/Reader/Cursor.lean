import BitcodeReplay.Shell.Arithmetic
import BitcodeReplay.Shell.Script
import BitcodeReplay.Text.Search

/-!
Reading scripts character by character: what is left of a script, the documents that have been
announced in it, and why a script cannot be read on.
-/

namespace BitcodeReplay.Shell

/-- What stands where the reader wants something else. -/
inductive Found where
  | word
  | newline
  | endOfFile
  | redirection
  | operator (text : String)
  deriving DecidableEq, Repr

inductive Problem where
  | unterminated
  | unclosed (closer : String)
  | openBackQuote
  | badLoopVariable
  | badFunctionName
  | badChannel
  | unexpected (found : Found) (wanted : Option Found)
  deriving DecidableEq, Repr

/-- Why a line cannot be read. -/
structure SyntaxFailure where
  line : Nat
  problem : Problem
  deriving DecidableEq, Repr

def Found.text : Found → String
  | .word => "word"
  | .newline => "newline"
  | .endOfFile => "end of file"
  | .redirection => "redirection"
  | .operator text => "\"" ++ text ++ "\""

def Problem.message : Problem → String
  | .unterminated => "Syntax error: Unterminated quoted string"
  | .unclosed closer => "Syntax error: Missing '" ++ closer ++ "'"
  | .openBackQuote => "Syntax error: EOF in backquote substitution"
  | .badLoopVariable => "Syntax error: Bad for loop variable"
  | .badFunctionName => "Syntax error: Bad function name"
  | .badChannel => "Syntax error: Bad fd number"
  | .unexpected found wanted =>
    "Syntax error: " ++ found.text ++ " unexpected" ++
      match wanted with
      | some token => " (expecting " ++ token.text ++ ")"
      | none => ""

namespace Reader

/-- What a script is made of. -/
inductive Token where
  | word (w : Word)
  | redirection (number : Option Nat) (operator : String)
  | operator (text : String)
  | keyword (text : String)
  | newline
  | endOfFile

/-- A document whose lines are still to come. -/
structure Announced where
  index : Nat
  ending : Octets
  quoted : Bool
  tabs : Bool

/-- What is left of a script and the number of its line. `held` is a token that has been read too
early. An alias is not replaced again as long as more than `beyond` characters are left; `chained` says
that the word after an alias may be one too. -/
structure Cursor where
  rest : Octets
  line : Nat
  held : Option Token
  documents : Array Word
  announced : List Announced
  aliases : List (Octets × Octets)
  replacing : List (Octets × Nat)
  chained : Bool

abbrev Scan := StateT Cursor (Except SyntaxFailure)

def refuse {α : Type} (problem : Problem) : Scan α := fun c => .error ⟨c.line, problem⟩

def rest : Scan Octets := return (← get).rest

/-- Goes on behind some characters. -/
def drop (n : Nat) : Scan Unit :=
  modify fun c => { c with rest := c.rest.drop n, line := c.line + (c.rest.take n).count '\n' }

/-- Takes a text if it comes next. -/
def accept (text : String) : Scan Bool := do
  if text.toList.isPrefixOf (← rest) then
    drop text.length
    return true
  else return false

/-- Takes the characters that satisfy `p`. -/
def takeRun (p : Char → Bool) : Scan Octets := do
  let run := (← rest).takeWhile p
  drop run.length
  return run

/-- Drops pairs of a backslash and a line feed; the first argument bounds their number. -/
def joinLinesUpTo : Nat → Scan Unit
  | 0 => pure ()
  | bound + 1 => do if ← accept "\\\n" then joinLinesUpTo bound

/-- Drops pairs of a backslash and a line feed. -/
def joinLines : Scan Unit := do joinLinesUpTo ((← rest).length + 1)

/-- The characters that end a word outside quotes. -/
def isMeta (c : Char) : Bool := [' ', '\t', '\n', ';', '&', '|', '<', '>', '(', ')'].contains c

/-- How many characters of blanks, joined lines and comment come next. -/
def gapLength : Octets → Nat
  | ' ' :: r => gapLength r + 1
  | '\t' :: r => gapLength r + 1
  | '\\' :: '\n' :: r => gapLength r + 2
  | '#' :: r => (r.takeWhile (· != '\n')).length + 1
  | _ => 0

/-- The words that the language keeps for itself where a command starts. -/
def reserved : List String :=
  ["!", "case", "do", "done", "elif", "else", "esac", "fi", "for", "if", "in", "then", "until",
    "while", "\x7b", "\x7d"]

/-- The tokens that end a list of commands. -/
def closers : List String := ["do", "done", "elif", "else", "esac", "fi", "then", "\x7d"]

def Token.endsList : Token → Bool
  | .keyword k => closers.contains k
  | .operator o => o == ")" || o == ";;"
  | .endOfFile => true
  | _ => false

def Token.found : Token → Found
  | .word _ => .word
  | .redirection _ _ => .redirection
  | .operator text | .keyword text => .operator text
  | .newline => .newline
  | .endOfFile => .endOfFile

/-- The text of a word of which nothing is quoted or expanded. -/
def plain? : Word → Option Octets
  | [.text chars false] => some chars
  | _ => none

def refuseToken {α : Type} (token : Token) (wanted : Option Found) : Scan α :=
  refuse (.unexpected token.found wanted)

def hold (token : Token) : Scan Unit := modify fun c => { c with held := some token }

/-- Where the parts of a word are read: outside quotes, between double quotes, between braces, in an
arithmetic expression, or in a line of a document. -/
inductive Mode where
  | word
  | double
  | document
  | brace (quoted : Bool)
  | arithmetic (depth : Nat)
  deriving DecidableEq, Repr

/-- Whether what is read is quoted. -/
def Mode.quotes : Mode → Bool
  | .word => false
  | .double | .document => true
  | .brace quoted => quoted
  | .arithmetic _ => true

/-- The characters that stand for themselves. -/
def Mode.isPlain (m : Mode) (c : Char) : Bool :=
  !(['\\', '$', '\x60'].contains c) &&
    match m with
    | .word => !isMeta c && c != '\'' && c != '"'
    | .double => c != '"'
    | .document => c != '\n'
    | .brace quoted => c != '\x7d' && c != '"' && (quoted || c != '\'')
    | .arithmetic _ => c != '(' && c != ')'

/-- Whether a backslash quotes a character where text is quoted. -/
def Mode.isEscapable (m : Mode) (c : Char) : Bool :=
  ['\\', '$', '\x60'].contains c || (m != .document && c == '"') ||
    (m = .brace true && c == '\x7d')

/-- The text of a command between back quotes, which may stand between double quotes. -/
def unquoteBack (quoted : Bool) : Octets → Octets
  | '\\' :: '\n' :: r => unquoteBack quoted r
  | '\\' :: c :: r =>
    if c = '\\' || c = '$' || c = '\x60' || (quoted && c = '"') then c :: unquoteBack quoted r
    else '\\' :: c :: unquoteBack quoted r
  | c :: r => c :: unquoteBack quoted r
  | [] => []

/-- How many characters there are before the closing back quote. -/
def backLength? : Octets → Option Nat
  | [] => none
  | '\x60' :: _ => some 0
  | '\\' :: _ :: r => (backLength? r).map (· + 2)
  | _ :: r => (backLength? r).map (· + 1)

/-- The parameters whose names are no words. -/
def isSpecial (c : Char) : Bool := ['@', '*', '#', '?', '-', '$', '!'].contains c

/-- Whether the argument of an operator is a pattern, in which quotes outside do not count. -/
def isStrip : Operator → Bool
  | .stripStart _ | .stripEnd _ => true
  | _ => false

/-- The text of a word in which nothing is expanded, whether any of it is quoted, and how many
characters it takes. -/
def delimiter : Octets → Octets × Bool × Nat
  | '\\' :: c :: rest =>
    let (text, quoted, count) := delimiter rest
    if c = '\n' then (text, quoted, count + 2) else (c :: text, true, count + 2)
  | '\'' :: rest =>
    let inner := rest.takeWhile (· != '\'')
    let (text, _, count) := delimiter (rest.drop (inner.length + 1))
    (inner ++ text, true, inner.length + 2 + count)
  | '"' :: rest =>
    let inner := rest.takeWhile (· != '"')
    let (text, _, count) := delimiter (rest.drop (inner.length + 1))
    (inner.filter (· != '\\') ++ text, true, inner.length + 2 + count)
  | c :: rest =>
    if isMeta c then ([], false, 0)
    else
      let (text, quoted, count) := delimiter rest
      (c :: text, quoted, count + 1)
  | [] => ([], false, 0)
termination_by text => text.length
decreasing_by all_goals simp only [List.length_cons, List.length_drop]; omega

/-- The value of an alias that may be replaced here. -/
def alias? (name : Octets) : Scan (Option Octets) := do
  let c ← get
  let left := c.rest.length
  let busy := c.replacing.filter fun p => left > p.2
  return if busy.any fun p => p.1 == name then none else c.aliases.lookup name

/-- Puts the value of an alias before what is left. -/
def replaceAlias (name value : Octets) : Scan Unit :=
  modify fun c =>
    { c with
      rest := value ++ c.rest
      replacing := (name, c.rest.length) :: c.replacing.filter fun p => c.rest.length > p.2
      chained := value.getLast?.any fun x => x == ' ' || x == '\t' }

/-- Whether a word was read behind an alias that lets the next word be one too. -/
def takeChained : Scan Bool := do
  let c ← get
  let isSpent := c.replacing.head?.any fun p => c.rest.length ≤ p.2
  if c.chained && isSpent then
    set { c with chained := false }
    return true
  else return false

/-- The lines of a quoted document up to its ending. -/
def quotedDocument (a : Announced) : Nat → Scan Octets
  | 0 => return []
  | bound + 1 => do
    let text ← rest
    if text = [] then return []
    let line := text.takeWhile (· != '\n')
    let bare := if a.tabs then line.dropWhile (· == '\t') else line
    drop (line.length + 1)
    if bare = a.ending then return []
    let closed := (text.drop line.length) ≠ []
    return bare ++ (if closed then ['\n'] else []) ++ (← quotedDocument a bound)

/-- Takes the ending of a document, if that is the line that comes next. -/
def acceptEnding (a : Announced) : Scan Bool := do
  let text ← rest
  let line := text.takeWhile (· != '\n')
  if line = a.ending then
    drop (line.length + 1)
    return true
  else return false

end Reader

end BitcodeReplay.Shell
