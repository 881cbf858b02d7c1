import BitcodeReplay.Tool.Awk.Pattern
import BitcodeReplay.Tool.Awk.Syntax

/-!
The words and marks of a program, each with the line on which it stands.
-/

namespace BitcodeReplay.Tool.Awk

open Numeric (Signed)

/-- A word or a mark. A name is `called` if a parenthesis follows it at once. One that is `broken` ends
the reading with a complaint. -/
inductive Token where
  | number (n : Signed)
  | text (t : Octets)
  | regex (t : Octets)
  | name (n : String) (called : Bool)
  | builtin (b : Builtin)
  | keyword (w : String)
  | mark (m : String)
  | newline
  | ending
  | odd (c : Char)
  | broken (complaint : Octets)
  deriving DecidableEq, Repr

/-- A token, how it is written, and where it stands. -/
structure Item where
  token : Token
  spelling : Octets
  file : Octets
  line : Nat

/-- The line of an item, for a complaint. -/
def Item.place (i : Item) : Octets := i.file ++ Octets.ofText "line " ++ Octets.ofNat i.line

namespace Token

def keywords : List String :=
  ["BEGIN", "END", "break", "continue", "delete", "do", "else", "exit", "for", "function", "getline",
    "if", "in", "next", "nextfile", "print", "printf", "return", "while"]

def builtins : List (String × Builtin) :=
  [("atan2", .atan2), ("close", .close), ("cos", .cos), ("exp", .exp), ("fflush", .flush),
    ("gsub", .substitute true), ("index", .index), ("int", .int), ("length", .length), ("log", .log),
    ("match", .lookFor), ("mktime", .makeTime), ("rand", .random), ("sin", .sin), ("split", .split),
    ("sprintf", .format), ("sqrt", .sqrt), ("srand", .seed), ("strftime", .formatTime),
    ("sub", .substitute false), ("substr", .substring), ("system", .system), ("systime", .time),
    ("tolower", .lower), ("toupper", .upper)]

/-- The marks, those first that others begin like. -/
def marks : List String :=
  ["&&", "||", "++", "--", "+=", "-=", "*=", "/=", "%=", "^=", "==", "!=", "<=", ">=", ">>", "!~", "=",
    "<", ">", "!", "~", "+", "-", "*", "/", "%", "^", "(", ")", "[", "]", "\x7b", "\x7d", ",", ";", "?",
    ":", "$", "|"]

/-- Whether a slash behind a token divides. Else it starts a pattern. -/
def isDivided : Token → Bool
  | .number _ | .text _ | .regex _ | .name _ false | .keyword "getline" => true
  | .mark m => [")", "]", "++", "--"].contains m
  | _ => false

def isNameChar (c : Char) : Bool := Text.isLetter c || Text.isDigit c || c == '_'

/-- Whether a backslash in front of some text writes a character together with the start of it. -/
def isEscape : Octets → Bool
  | 'x' :: rest => rest.head?.any (Shell.Arithmetic.isDigitIn 16)
  | c :: _ => ['a', 'b', 'f', 'n', 'r', 't', 'v', '"', '\\'].contains c || Shell.Format.isOctal c
  | [] => false

/-- What a backslash in front of some text writes, the last character first, and what is left. -/
def escape (t : Octets) : Octets × Octets :=
  if isEscape t then
    let (c, rest) := Pattern.escaped t
    ([c], rest)
  else
    match t with
    | c :: rest => ([c, '\\'], rest)
    | [] => (['\\'], [])

/-- A text with what backslashes write in it. The first argument bounds its length. -/
def unescape : Nat → Octets → Octets
  | bound + 1, '\\' :: rest =>
    let (t, rest) := escape rest
    t.reverse ++ unescape bound rest
  | bound + 1, c :: rest => c :: unescape bound rest
  | 0, t => t
  | _, [] => []

/-- The text up to the quote that closes it, what is left, and the number of lines that it goes on for.
The first argument bounds its length. -/
def quoted? : Nat → Octets → Nat → Octets → Option (Octets × Octets × Nat)
  | bound + 1, done, lines, '\\' :: '\n' :: rest => quoted? bound done (lines + 1) rest
  | bound + 1, done, lines, '\\' :: rest =>
    let (t, rest) := escape rest
    quoted? bound (t ++ done) lines rest
  | _ + 1, done, lines, '"' :: rest => some (done.reverse, rest, lines)
  | bound + 1, done, lines, c :: rest =>
    if c = '\n' then none else quoted? bound (c :: done) lines rest
  | _, _, _, _ => none

/-- Where a text stands in the set of a pattern: outside, behind its bracket, inside, or in the name of
a class. -/
inductive SetPlace where
  | outside
  | start
  | inside
  | named
  deriving DecidableEq

/-- The text up to the slash that closes a pattern, and what is left. -/
def pattern? (done : Octets) (place : SetPlace) : Octets → Option (Octets × Octets)
  | [] | '\n' :: _ => none
  | '\\' :: '/' :: rest => pattern? ('/' :: done) (if place = .start then .inside else place) rest
  | '\\' :: c :: rest => pattern? (c :: '\\' :: done) (if place = .start then .inside else place) rest
  | '[' :: ':' :: rest =>
    pattern? (':' :: '[' :: done) (if place = .outside then .inside else .named) rest
  | ':' :: ']' :: rest =>
    pattern? (']' :: ':' :: done) (if place = .named then .inside else .outside) rest
  | c :: rest =>
    match c, place with
    | '/', .outside => some (done.reverse, rest)
    | '[', .outside => pattern? (c :: done) .start rest
    | '^', .start => pattern? (c :: done) .start rest
    | ']', .inside => pattern? (c :: done) .outside rest
    | _, .start => pattern? (c :: done) .inside rest
    | _, _ => pattern? (c :: done) place rest

/-- Goes on behind blanks, comments, and lines that are continued. The first argument bounds the
length. -/
def skipBlanks : Nat → Nat → Octets → Nat × Octets
  | bound + 1, line, '\\' :: '\n' :: rest => skipBlanks bound (line + 1) rest
  | bound + 1, line, '#' :: rest => skipBlanks bound line (rest.dropWhile (· != '\n'))
  | bound + 1, line, c :: rest =>
    if [' ', '\t', '\x0b', '\x0c', '\r'].contains c then skipBlanks bound line rest
    else (line, c :: rest)
  | _, line, rest => (line, rest)

/-- How many digits stand at the start of a text. -/
def digitCount (t : Octets) : Nat := (t.takeWhile Text.isDigit).length

/-- How long the number at the start of a text is. -/
def numberLength (t : Octets) : Nat :=
  let whole := digitCount t
  let pointed := match t.drop whole with
    | '.' :: rest => whole + 1 + digitCount rest
    | _ => whole
  match t.drop pointed with
  | e :: rest =>
    if e = 'e' || e = 'E' then
      let sign := if rest.head? = some '+' || rest.head? = some '-' then 1 else 0
      let digits := digitCount (rest.drop sign)
      if digits = 0 then pointed else pointed + 1 + sign + digits
    else pointed
  | [] => pointed

/-- What a word stands for. -/
def ofWord (word : Octets) (called : Bool) : Token :=
  let name := String.ofList word
  if keywords.contains name then .keyword name
  else
    match builtins.lookup name with
    | some b => .builtin b
    | none => .name name called

/-- The token at the start of a text, how it is written, what is left, and the number of lines that it
goes on for. -/
def first (divides : Bool) (t : Octets) : Token × Octets × Octets × Nat :=
  let head := fun t : Octets => (t.takeWhile (· != '\n')).take 10
  match t with
  | [] => (.ending, [], [], 0)
  | c :: rest =>
    if c = '\n' then (.newline, [], rest, 1)
    else if c = '"' then
      match quoted? (t.length + 1) [] 0 rest with
      | some (found, rest, lines) => (.text found, found, rest, lines)
      | none =>
        (.broken (Octets.ofText "runaway string constant \"" ++ head rest ++ Octets.ofText " ..."), [], [], 0)
    else if c = '/' && !divides then
      match pattern? [] .outside rest with
      | some (found, rest) => (.regex found, '/' :: found ++ ['/'], rest, 0)
      | none =>
        (.broken (Octets.ofText "runaway regular expression /" ++ head rest ++ Octets.ofText " ..."), [], [], 0)
    else if Text.isDigit c || (c = '.' && rest.head?.any Text.isDigit) then
      let written := t.take (numberLength t)
      (.number (((Numeric.Reading.number? written).map (·.1)).getD .zero), written,
        t.drop written.length, 0)
    else if Text.isLetter c || c = '_' then
      let word := t.takeWhile isNameChar
      let rest := t.drop word.length
      (ofWord word (rest.head? = some '('), word, rest, 0)
    else
      match marks.find? fun m => m.toList.isPrefixOf t with
      | some m => (.mark m, m.toList, t.drop m.length, 0)
      | none => (.odd c, [c], if c = '.' then rest.drop 1 else rest, 0)

/-- The items of a text from a line on. The first argument bounds its length. -/
def items (file : Octets) : Nat → Nat → Bool → Octets → List Item
  | 0, _, _, _ => []
  | bound + 1, line, divides, t =>
    let (line, t) := skipBlanks (t.length + 1) line t
    let (token, written, rest, lines) := first divides t
    let item : Item := ⟨token, written, file, line⟩
    match token with
    | .ending | .broken _ => [item]
    | _ => item :: items file bound (line + lines) token.isDivided rest

/-- The items of the text of a program. -/
def ofText (file t : Octets) : List Item := items file (t.length + 2) 1 false t

end Token

end BitcodeReplay.Tool.Awk
