/-!
Shell words: splitting a command line into words, and quoting words so that splitting the joined
line gives them back. Words end at a space, a tab or a line feed.
-/

namespace BitcodeReplay.ShellWords

/-- The characters that end an unquoted word. -/
def isSeparator (c : Char) : Bool := c == ' ' || c == '\t' || c == '\n'

/-- Where the reader stands between two characters. -/
inductive Mode where
  | gap
  | comment
  | word
  | escaped
  | single
  | double
  | doubleEscaped
  deriving DecidableEq, Repr

/-- What a character does in the open part of a word: the next mode, and what the word gains. -/
def Mode.open (c : Char) : Mode × List Char :=
  if c = '"' then (.double, [])
  else if c = '\'' then (.single, [])
  else if c = '\\' then (.escaped, [])
  else (.word, [c])

/-- What a backslash inside double quotes stands for together with the character after it. -/
def unescape (c : Char) : List Char :=
  if c = '\n' then []
  else if c = '$' || c = '\x60' || c = '"' || c = '\\' then [c]
  else ['\\', c]

/-- Reads on with `w` as the part of the current word seen so far. An open quote or a final
backslash fails. -/
def scan (mode : Mode) (w : List Char) : List Char → Option (List (List Char))
  | [] =>
    match mode with
    | .gap | .comment => some []
    | .word => some [w]
    | .escaped | .single | .double | .doubleEscaped => none
  | c :: r =>
    match mode with
    | .gap =>
      if isSeparator c then scan .gap [] r
      else if c = '#' then scan .comment [] r
      else scan (Mode.open c).1 (Mode.open c).2 r
    | .comment => scan (if c = '\n' then .gap else .comment) [] r
    | .word =>
      if isSeparator c then (scan .gap [] r).map (w :: ·)
      else scan (Mode.open c).1 (w ++ (Mode.open c).2) r
    | .escaped => scan .word (if c = '\n' then w else w ++ [c]) r
    | .single => if c = '\'' then scan .word w r else scan .single (w ++ [c]) r
    | .double =>
      if c = '"' then scan .word w r
      else if c = '\\' then scan .doubleEscaped w r
      else scan .double (w ++ [c]) r
    | .doubleEscaped => scan .double (w ++ unescape c) r

/-- The words of a command line, or nothing if it ends inside a quote or after a backslash. -/
def split? (line : String) : Option (List String) :=
  (scan .gap [] line.toList).map fun words => words.map String.ofList

/-- Which of the three ways of writing a chunk of a word are open. -/
structure Styles where
  bare : Bool
  single : Bool
  double : Bool
  deriving DecidableEq, Repr

namespace Styles

def meet (s t : Styles) : Styles := ⟨s.bare && t.bare, s.single && t.single, s.double && t.double⟩

def isEmpty (s : Styles) : Bool := !s.bare && !s.single && !s.double

end Styles

/-- The characters that need no quotes. -/
def isBare (c : Char) : Bool :=
  ('0' ≤ c && c ≤ '9') || ('A' ≤ c && c ≤ 'Z') || ('a' ≤ c && c ≤ 'z') ||
    ['+', '-', '.', '/', ':', '@', ']', '_'].contains c

/-- The ways of writing one character. -/
def stylesOf (c : Char) : Styles where
  bare := isBare c
  single := !(['\'', '\\', '^'].contains c)
  double := !(['\x60', '$', '!', '^'].contains c)

/-- The ways of writing a chunk that starts with `c`: a caret there is single quoted. -/
def opening (c : Char) : Styles := if c = '^' then ⟨false, true, false⟩ else stylesOf c

/-- A character between double quotes. -/
def escapeDouble (c : Char) : List Char := if c = '"' || c = '\\' then ['\\', c] else [c]

/-- A chunk in the first open style of bare, single and double quotes. -/
def writeChunk (s : Styles) (chunk : List Char) : List Char :=
  if s.bare then chunk
  else if s.single then '\'' :: (chunk ++ ['\''])
  else '"' :: (chunk.flatMap escapeDouble ++ ['"'])

/-- Quotes the rest of a word of which `chunk` is the last chunk, open to the styles `s`. A chunk
ends where no style holds it together with the next character. -/
def quoteFrom (s : Styles) (chunk : List Char) : List Char → List Char
  | [] => writeChunk s chunk
  | c :: r =>
    if (s.meet (stylesOf c)).isEmpty then writeChunk s chunk ++ quoteFrom (opening c) [c] r
    else quoteFrom (s.meet (stylesOf c)) (chunk ++ [c]) r

/-- One word, quoted where it has to be. -/
def quote : List Char → List Char
  | [] => ['\'', '\'']
  | c :: r => quoteFrom (opening c) [c] r

/-- The words on one line, unless one of them holds a NUL. -/
def join? (words : List String) : Option String :=
  if words.any fun w => w.toList.contains '\x00' then none
  else some (String.intercalate " " (words.map fun w => String.ofList (quote w.toList)))

end BitcodeReplay.ShellWords
