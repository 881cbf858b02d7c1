import BitcodeReplay.Text.Regex

/-!
The two ways to write regular expressions. In a basic one the operators for grouping, alternatives
and counted repetition need a backslash; in an extended one they lose their meaning by it.
-/

namespace BitcodeReplay.Text

/-- How an expression is written. A strict style refuses operators that have nothing to work on and
parentheses that close nothing; otherwise the former say nothing, and the latter stand for
themselves. -/
structure RegexStyle where
  extended : Bool
  strict : Bool
  deriving DecidableEq, Repr

/-- Why an expression cannot be read. -/
inductive RegexFailure where
  | openGroup
  | closedGroup
  | openSet
  | openInterval
  | badInterval
  | trailingBackslash
  | badBackReference
  | badClass
  | badRange
  | nothingToRepeat
  | emptySet
  | outerClass
  | tooBig
  deriving DecidableEq, Repr

def RegexFailure.message : RegexFailure → String
  | .openGroup => "Unmatched ( or \\("
  | .closedGroup => "Unmatched ) or \\)"
  | .openSet => "Unmatched [, [^, [:, [., or [="
  | .openInterval => "Unmatched \\\x7b"
  | .badInterval => "Invalid content of \\\x7b\\\x7d"
  | .trailingBackslash => "Trailing backslash"
  | .badBackReference => "Invalid back reference"
  | .badClass => "Invalid character class name"
  | .badRange => "Invalid range end"
  | .nothingToRepeat => "Invalid preceding regular expression"
  | .emptySet => "Invalid regular expression"
  | .outerClass => "character class syntax is [[:space:]], not [:space:]"
  | .tooBig => "Regular expression too big"

/-- The most often that an expression may be asked to repeat. -/
def maxRepetitions : Nat := 32767

namespace RegexSyntax

/-- What is left of an expression, and how many parts have been marked before. -/
structure Cursor where
  rest : List Char
  groups : Nat
  closed : List Nat

abbrev Scan := StateT Cursor (Except RegexFailure)

def drop (n : Nat) : Scan Unit := modify fun c => { c with rest := c.rest.drop n }

/-- The characters that an operator takes, with its backslash where it needs one. -/
def operator (style : RegexStyle) (c : Char) : List Char :=
  if style.extended then [c] else ['\\', c]

/-- Takes an operator if it comes next. -/
def accept (style : RegexStyle) (c : Char) : Scan Bool := do
  if (operator style c).isPrefixOf (← get).rest then
    drop (operator style c).length
    return true
  else return false

def classSet (negated : Bool) (items : List SetItem) : Regex := .one (.set ⟨negated, items⟩)

/-- What a letter after a backslash stands for in every expression. -/
def special? : Char → Option Regex
  | 'w' => some (classSet false [.named "alnum", .range '_' '_'])
  | 'W' => some (classSet true [.named "alnum", .range '_' '_'])
  | 's' => some (classSet false [.named "space"])
  | 'S' => some (classSet true [.named "space"])
  | 'b' => some (.anchor .wordEdge)
  | 'B' => some (.anchor .insideWord)
  | '<' => some (.anchor .wordStart)
  | '>' => some (.anchor .wordEnd)
  | '\x60' => some (.anchor .textStart)
  | '\'' => some (.anchor .textEnd)
  | _ => none

/-- The numbers of a counted repetition and what follows it. -/
def interval? (style : RegexStyle) (text : List Char) :
    Option (Nat × Option Nat × List Char) :=
  let number := fun digits : List Char => (String.ofList digits).toNat?
  let first := text.takeWhile isDigit
  let rest := text.drop first.length
  let closing := operator style '\x7d'
  let finish := fun least most (rest : List Char) =>
    if closing.isPrefixOf rest then some (least, most, rest.drop closing.length) else none
  match rest with
  | ',' :: rest =>
    let second := rest.takeWhile isDigit
    finish ((number first).getD 0) (number second) (rest.drop second.length)
  | _ => (number first).bind fun n => finish n (some n) rest

/-- Takes the signs that repeat an expression. The first argument bounds their number. -/
def repetitions (style : RegexStyle) : Nat → Regex → Scan Regex
  | 0, r => return r
  | bound + 1, r => do
    let c ← get
    match c.rest with
    | '*' :: rest =>
      set { c with rest := rest }
      repetitions style bound (.repeated r 0 none)
    | _ =>
      if ← accept style '+' then repetitions style bound (.repeated r 1 none)
      else if ← accept style '?' then repetitions style bound (.repeated r 0 (some 1))
      else if (operator style '\x7b').isPrefixOf c.rest then
        match interval? style (c.rest.drop (operator style '\x7b').length) with
        | some (least, most, rest) =>
          if most.any (· < least) then throw .badInterval
          if maxRepetitions < most.getD least then throw .tooBig
          set { c with rest := rest }
          repetitions style bound (.repeated r least most)
        | none =>
          if style.extended then return r
          else if c.rest.contains '\x7d' then throw .badInterval
          else throw .openInterval
      else return r

/-- Whether the sets of an expression make sense. -/
def checkSet (s : CharacterSet) : Except RegexFailure Unit :=
  if s.items.any fun i => match i with | .named n => !classNames.contains n | _ => false then
    .error .badClass
  else if s.items.any fun i => match i with | .range low high => high < low | _ => false then
    .error .badRange
  else .ok ()

/-- Whether an expression ends before some text. -/
def atEnd (style : RegexStyle) (depth : Nat) (text : List Char) : Bool :=
  text.isEmpty || (operator style '|').isPrefixOf text ||
    ((operator style ')').isPrefixOf text && (depth > 0 || !style.extended))

/-- A character set after its opening bracket. -/
def bracket : Scan Regex := do
  let c ← get
  match characterSet? false ['^'] c.rest with
  | none => throw (if c.rest = [] || c.rest = ['^'] then .emptySet else .openSet)
  | some (s, rest) =>
    let inner := c.rest.take (c.rest.length - rest.length - 1)
    if inner.length > 1 && inner.head? = some ':' && inner.getLast? = some ':' then
      throw .outerClass
    checkSet s
    set { c with rest := rest }
    return .one (.set s)

mutual

/-- Alternatives, inside as many groups as given. -/
def choice (style : RegexStyle) : Nat → Nat → Scan Regex
  | 0, _ => throw .openGroup
  | fuel + 1, depth => do
    let first ← sequence style fuel depth true
    if ← accept style '|' then return .alt first (← choice style fuel depth)
    else return first

/-- Pieces one after the other. `fresh` says that nothing stands before. -/
def sequence (style : RegexStyle) : Nat → Nat → Bool → Scan Regex
  | 0, _, _ => throw .openGroup
  | fuel + 1, depth, fresh => do
    if atEnd style depth (← get).rest then return .empty
    let (piece, stillFresh) ← atom style fuel depth fresh
    let piece ←
      if stillFresh && !style.extended then pure piece
      else repetitions style ((← get).rest.length + 1) piece
    let rest ← sequence style fuel depth stillFresh
    return if rest = .empty then piece else .cat piece rest

/-- One piece without what repeats it, and whether nothing but anchors stands before what follows. -/
def atom (style : RegexStyle) : Nat → Nat → Bool → Scan (Regex × Bool)
  | 0, _, _ => throw .openGroup
  | fuel + 1, depth, fresh => do
    if ← accept style '(' then
      let n := (← get).groups + 1
      modify fun c => { c with groups := n }
      let inner ← choice style fuel (depth + 1)
      if !(← accept style ')') then throw .openGroup
      modify fun c => { c with closed := n :: c.closed }
      return (.group n inner, false)
    if depth = 0 && (style.strict || !style.extended) &&
        (operator style ')').isPrefixOf (← get).rest then throw .closedGroup
    let c ← get
    match c.rest with
    | [] => return (.empty, false)
    | '\\' :: rest =>
      match rest with
      | [] => throw .trailingBackslash
      | e :: rest =>
        set { c with rest := rest }
        if '1' ≤ e && e ≤ '9' then
          if !c.closed.contains (e.toNat - '0'.toNat) then throw .badBackReference
          return (.back (e.toNat - '0'.toNat), false)
        if !style.extended && e = '\x7b' then
          if fresh && style.strict then throw .nothingToRepeat
          return (.one (.char e), false)
        match special? e with
        | some r => return (r, false)
        | none => return (.one (.char e), false)
    | '[' :: rest =>
      set { c with rest := rest }
      return (← bracket, false)
    | '.' :: rest =>
      set { c with rest := rest }
      return (.one .any, false)
    | '^' :: rest =>
      set { c with rest := rest }
      if style.extended || fresh then return (.anchor .lineStart, true)
      return (.one (.char '^'), false)
    | '$' :: rest =>
      set { c with rest := rest }
      if style.extended || atEnd style (depth + 1) rest then return (.anchor .lineEnd, false)
      return (.one (.char '$'), false)
    | x :: rest =>
      set { c with rest := rest }
      if style.extended && ['*', '+', '?'].contains x then
        if style.strict then throw .nothingToRepeat
        return (.empty, true)
      return (.one (.char x), false)

end

end RegexSyntax

/-- Reads an expression. -/
def Regex.read (style : RegexStyle) (pattern : List Char) : Except RegexFailure Regex :=
  match (RegexSyntax.choice style (6 * pattern.length + 8) 0).run ⟨pattern, 0, []⟩ with
  | .ok (r, c) => if c.rest = [] then .ok r else .error .closedGroup
  | .error e => .error e

end BitcodeReplay.Text
