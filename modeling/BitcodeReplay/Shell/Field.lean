import BitcodeReplay.Shell.Pattern
import BitcodeReplay.Shell.Session

/-!
From words to fields. A tilde at the start of a word stands for a home directory, with the name of a
user behind it or without; in the value of a variable also behind a colon. The result of an unquoted
expansion is split, and a field with an unquoted pattern gives way to the paths it matches.
-/

namespace BitcodeReplay.Shell.Tilde

/-- The home directory of a user, or of the current one if there is no name. -/
def homeOf (s : Session) (user : Octets) : Option Octets :=
  match String.ofList user with
  | "" => s.named "HOME"
  | "root" => some "/root".toList
  | "daemon" => some "/usr/sbin".toList
  | "bin" => some "/bin".toList
  | "nobody" => some "/nonexistent".toList
  | _ => none

/-- Text at whose start a tilde counts. The name behind it has to end there, at a slash or where the
text is closed. -/
def segment (s : Session) (closed : Bool) (chars : Octets) : Word :=
  match chars with
  | '~' :: rest =>
    let user := rest.takeWhile (· != '/')
    let after := rest.drop user.length
    match if after = [] && !closed then none else homeOf s user with
    | some home => (if home = [] then [] else [.text home true]) ++ [.text after false]
    | none => [.text chars false]
  | _ => [.text chars false]

/-- Text of a word, which may be its first part and its last. -/
def text (s : Session) (colons isFirst isLast : Bool) (chars : Octets) : Word :=
  let segments := if colons then chars.splitOn ':' else [chars]
  let words := segments.zipIdx.map fun (chars, i) =>
    if i = 0 && !isFirst then [Part.text chars false]
    else segment s (isLast || i + 1 < segments.length) chars
  List.intercalate [.text [':'] false] words

/-- A word with home directories in the place of tildes. -/
def expand (s : Session) (colons : Bool) (w : Word) : Word :=
  w.zipIdx.flatMap fun (part, i) =>
    match part with
    | .text chars false =>
      if chars.contains '~' && (i = 0 || colons) then
        text s colons (i == 0) (i + 1 == w.length) chars
      else [part]
    | _ => [part]

end BitcodeReplay.Shell.Tilde

namespace BitcodeReplay.Shell

/-- A piece of an expanded word: text of the script, which is never split, the result of an unquoted
expansion, or the arguments of the shell each on its own. A null character stands between arguments. -/
inductive Piece where
  | fixed (text : Octets) (quoted : Bool)
  | loose (text : Octets)
  | arguments (text : Octets)
  deriving DecidableEq, Repr

namespace Piece

def text : Piece → Octets
  | .fixed text _ | .loose text | .arguments text => text

/-- The text of a word that is not split. -/
def join (pieces : List Piece) : Octets := pieces.flatMap text

/-- What was quoted stands for itself in a pattern. -/
def escaped (text : Octets) : Octets := text.flatMap fun c => ['\\', c]

/-- The pattern that a word stands for. -/
def pattern (pieces : List Piece) : Octets :=
  pieces.flatMap fun piece =>
    match piece with
    | .fixed text true | .arguments text => escaped text
    | .fixed text false | .loose text => text

/-- The result of an expansion. -/
def ofValue (quoted : Bool) (value : Octets) : Piece :=
  if quoted then .fixed value true else .loose value

end Piece

/-- Characters, each with whether it was quoted. -/
abbrev Field := List (Char × Bool)

namespace Field

def blanks : Octets := [' ', '\t', '\n']

/-- A splitting under way. `current` is nothing as long as the next field has not begun. `blank`
says that a blank has just ended a field, and `separate` that each argument is a field, in this piece
or the one before. `left` is how many fields may still be ended, if there is a limit; in the last of
them `cut` is how much is kept. -/
structure Splitting where
  done : List Field
  current : Option Field
  blank : Bool
  separate : Bool
  left : Option Nat
  cut : Option Nat

namespace Splitting

def add (s : Splitting) (c : Char) (quoted : Bool) : Splitting :=
  { s with current := some ((c, quoted) :: s.current.getD []) }

/-- Takes a separator, if it is one. -/
def separator (s : Splitting) (holdsBlank : Bool) (c : Char) (isBlank : Bool) : Splitting :=
  let blank := if holdsBlank then s.blank else isBlank
  if s.current.isNone && blank then { s with blank := false }
  else if s.left = some 1 then
    { s with blank := blank, left := some 0, cut := some (s.current.getD []).length }.add c false
  else
    { s with
      done := s.current.getD [] :: s.done
      current := none
      blank := blank
      left := s.left.map (· - 1) }

/-- Takes a character that may end a field. Blanks around a separator that is none belong to it. -/
def next (separators : Octets) (quoted holdsBlank : Bool) (s : Splitting) (c : Char) : Splitting :=
  let ends := c == '\x00' || separators.contains c
  let isBlank := ends && (c == '\x00' || blanks.contains c)
  if s.left = some 0 then
    if isBlank then
      { s with cut := s.cut <|> some (s.current.getD []).length }.add c quoted
    else { s with cut := if ends && s.blank then s.cut else none, blank := false }.add c quoted
  else if s.blank then
    if isBlank then s
    else if ends then { s with blank := false }
    else { s with blank := false }.add c quoted
  else if ends then s.separator holdsBlank c isBlank
  else s.add c quoted

/-- Takes a piece. -/
def piece (separators : Octets) (s : Splitting) : Piece → Splitting
  | .fixed text quoted =>
    let s := if quoted then { s with current := some (s.current.getD []) } else s
    text.foldl (fun s c => s.add c quoted) s
  | .loose text =>
    let s := text.foldl (next separators false s.separate) { s with blank := false }
    { s with separate := false }
  | .arguments text =>
    let s := text.foldl (next [] true true) { s with blank := false }
    { s with separate := true }

/-- All fields. -/
def fields (s : Splitting) : List Field :=
  let last := match s.cut, s.current with
    | some n, some field => if n = 0 then none else some (field.drop (field.length - n))
    | _, current => current
  let last := if s.separate then some (last.getD []) else last
  ((last.toList ++ s.done).map List.reverse).reverse

end Splitting

/-- The fields of an expanded word, at most as many as there may be. -/
def split (separators : Octets) (limit : Option Nat) (pieces : List Piece) : List Field :=
  (pieces.foldl (Splitting.piece separators) ⟨[], none, false, false, limit, none⟩).fields

def text (f : Field) : Octets := f.map (·.1)

/-- The field as a pattern in which what was quoted stands for itself. A slash does so anyway. -/
def patternText (f : Field) : Octets :=
  f.flatMap fun (c, quoted) => if quoted && c != '/' then ['\\', c] else [c]

/-- Whether a bracket is closed before the next slash. -/
def closes : Octets → Bool
  | '\\' :: _ :: rest => closes rest
  | c :: rest => c != '/' && (c == ']' || closes rest)
  | [] => false

/-- Whether a pattern stands for more than itself. -/
def isOpen : Octets → Bool
  | '\\' :: _ :: rest => isOpen rest
  | '[' :: rest => closes (if rest.head? = some '!' then rest.drop 2 else rest.drop 1) || isOpen rest
  | c :: rest => c == '*' || c == '?' || isOpen rest
  | [] => false

/-- A text without the backslashes that quote. -/
def unquote : Octets → Octets
  | '\\' :: c :: rest => c :: unquote rest
  | c :: rest => c :: unquote rest
  | [] => []

/-- The parts of a pattern between slashes. -/
def components (pattern : Octets) : List Octets := pattern.splitOn '/'

/-- The names in a directory that a part of a pattern matches. A name with a dot at its start is
matched only by one that has it too. -/
def matchingNames (s : Session) (directory part : Octets) : List Octets :=
  match s.tree.readDir (s.place (if directory = [] then ['.'] else directory)) with
  | .error _ => []
  | .ok names =>
    let hidden := (unquote part).head? == some '.'
    let pattern := Pattern.ofText part
    let names := ['.'] :: ['.', '.'] :: names.map Octets.ofText
    names.filter fun name => (hidden || name.head? != some '.') && pattern.accepts name

/-- The paths that match some parts below a directory. -/
def paths (s : Session) (directory : Octets) : List Octets → List Octets
  | [] => [directory]
  | [part] =>
    if isOpen part then (matchingNames s directory part).map (directory ++ ·)
    else
      let path := directory ++ unquote part
      match s.tree.resolve false (s.place path) with
      | .ok (.found _ _) => [path]
      | _ => []
  | part :: rest =>
    let names := if isOpen part then matchingNames s directory part else [unquote part]
    names.flatMap fun name => paths s (directory ++ name ++ ['/']) rest

/-- The paths that a field stands for in order, or its text. -/
def expand (s : Session) (f : Field) : List Octets :=
  if s.has 'f' || !isOpen f.patternText then [f.text]
  else
    match paths s [] (components f.patternText) with
    | [] => [f.text]
    | found => found.mergeSort Octets.isLe

end Field

end BitcodeReplay.Shell
