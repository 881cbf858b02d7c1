import BitcodeReplay.Tool.Sed.Script

/-!
How scripts that edit lines are read: character by character, so that a complaint can say how far the
reading has come.
-/

namespace BitcodeReplay.Tool.Sed

/-- A complaint about a script: where, after how many characters or in which line, and why. -/
structure Complaint where
  source : Source
  taken : Nat
  line : Nat
  failure : ScriptFailure
  deriving DecidableEq, Repr

def Complaint.message (c : Complaint) : Octets :=
  match c.failure, c.source with
  | .noSuchLabel _, _ => c.failure.message
  | _, .expression n =>
    Octets.ofText ("-e expression #" ++ toString n ++ ", char " ++ toString c.taken ++ ": ") ++
      c.failure.message
  | _, .file path =>
    Octets.ofText "file " ++ path ++ Octets.ofText (" line " ++ toString c.line ++ ": ") ++
      c.failure.message

/-- How far a script has been read: what is left of its present part, the commands so far with the
blocks that are open, and a text that goes on in the next part. `isFirst` says that no part has been
read before, and `silent` that lines are not written by themselves. -/
structure Cursor where
  rest : Octets
  source : Source
  taken : Nat
  line : Nat
  extended : Bool
  steps : Array Step
  blocks : List (Nat × Source × Nat)
  unfinished : Option (Octets × Step)
  isFirst : Bool
  silent : Bool

abbrev Scan := StateT Cursor (Except Complaint)

namespace Reader

def refuse {α : Type} (f : ScriptFailure) : Scan α := do
  let c ← get
  throw ⟨c.source, c.taken, c.line, f⟩

/-- Takes a character. -/
def take? : Scan (Option Char) := do
  let c ← get
  match c.rest with
  | [] => return none
  | x :: rest =>
    set { c with rest := rest, taken := c.taken + 1, line := if x = '\n' then c.line + 1 else c.line }
    return some x

/-- Gives a character back. -/
def giveBack (x : Option Char) : Scan Unit :=
  match x with
  | none => pure ()
  | some x => modify fun c =>
    { c with
      rest := x :: c.rest
      taken := c.taken - 1
      line := if x = '\n' then c.line - 1 else c.line }

def isBlank (c : Char) : Bool := c == ' ' || c == '\t'

def isSpace (c : Char) : Bool := Text.inClass "space" c

/-- Takes the longest start of what is left whose characters pass a test. -/
def takeWhile (p : Char → Bool) : Scan Octets := do
  let c ← get
  let found := c.rest.takeWhile p
  set { c with
    rest := c.rest.drop found.length
    taken := c.taken + found.length
    line := c.line + found.count '\n' }
  return found

/-- Takes the next character that is not blank. -/
def takeNonblank? : Scan (Option Char) := do
  let _ ← takeWhile isBlank
  take?

/-- A number whose first digit has been taken. -/
def number (first : Option Char) : Scan Nat := do
  match first with
  | none => return 0
  | some c =>
    if !Text.isDigit c then
      giveBack first
      return 0
    let more ← takeWhile Text.isDigit
    return ((String.ofList (c :: more)).toNat?).getD 0

/-- A set of characters after its bracket, which may hold any delimiter. The first argument bounds
its length. -/
def bracketLength : Nat → Octets → Option Nat
  | 0, _ => none
  | bound + 1, t =>
    match t with
    | [] => none
    | '\n' :: _ => none
    | ']' :: _ => some 1
    | '[' :: k :: rest =>
      if k = ':' || k = '.' || k = '=' then
        let inner := (List.range rest.length).find? fun n =>
          (rest.drop n).take 2 == [k, ']'] && !(rest.take n).contains '\n'
        match inner with
        | some n => (bracketLength bound (rest.drop (n + 2))).map (· + (n + 4))
        | none => none
      else (bracketLength bound (k :: rest)).map (· + 1)
    | _ :: rest => (bracketLength bound rest).map (· + 1)

/-- How many characters a set takes, with its brackets; all of the text if nothing closes it. -/
def setLength (t : Octets) : Nat :=
  let lead := match t with
    | '[' :: '^' :: ']' :: _ => 3
    | '[' :: '^' :: _ => 2
    | '[' :: ']' :: _ => 2
    | _ => 1
  match bracketLength (t.length + 1) (t.drop lead) with
  | some n => lead + n
  | none => (t.takeWhile (· != '\n')).length

/-- A set with line feeds where a backslash and an `n` stand for them. -/
def setText : Octets → Octets
  | '\\' :: 'n' :: rest => '\n' :: setText rest
  | '\\' :: '\\' :: rest => '\\' :: '\\' :: setText rest
  | c :: rest => c :: setText rest
  | [] => []

/-- The text up to a delimiter, and how many characters have been taken; with no text if a line ends
before it. In expressions, a backslash and an `n` stand for a line feed, and sets may hold the
delimiter. The first argument bounds the steps. -/
def upTo (slash : Char) (isRegex : Bool) : Nat → Octets → Octets → Nat → Option Octets × Nat
  | 0, _, _, n => (none, n)
  | bound + 1, t, found, n =>
    match t with
    | [] => (none, n)
    | c :: rest =>
      if c = '\n' then (none, n)
      else if c = slash then (some found.reverse, n + 1)
      else if c = '\\' then
        match rest with
        | [] => (none, n + 1)
        | e :: rest =>
          let kept :=
            if e = slash then if !isRegex && e = '&' then ['\\', e] else [e]
            else if isRegex && e = 'n' then ['\n']
            else if e = '\n' then if isRegex then [e] else ['\\', e]
            else ['\\', e]
          upTo slash isRegex bound rest (kept.reverse ++ found) (n + 2)
      else if c = '[' && isRegex then
        let set := t.take (setLength t)
        upTo slash isRegex bound (t.drop set.length) ((setText set).reverse ++ found) (n + set.length)
      else upTo slash isRegex bound rest (c :: found) (n + 1)

/-- Takes the text up to a delimiter. -/
def delimited (slash : Char) (isRegex : Bool) (failure : ScriptFailure) : Scan Octets := do
  let c ← get
  let (found, n) := upTo slash isRegex (c.rest.length + 1) c.rest [] 0
  set { c with
    rest := c.rest.drop n
    taken := c.taken + n
    line := c.line + (c.rest.take n).count '\n' }
  match found with
  | some t => return t
  | none => refuse failure

def digitValue (c : Char) : Nat :=
  if Text.isDigit c then c.toNat - '0'.toNat
  else if 'a' ≤ c && c ≤ 'f' then c.toNat - 'a'.toNat + 10
  else if 'A' ≤ c && c ≤ 'F' then c.toNat - 'A'.toNat + 10
  else 99

/-- What a text is read as: an expression, a replacement, or itself. -/
inductive Use where
  | expression
  | replacement
  | plain
  deriving DecidableEq, Repr

/-- A character that a number has named. In a replacement and a text it stands for itself. -/
def Use.quoted (u : Use) (c : Char) : Octets :=
  let special := match u with
    | .expression => false
    | .replacement => c == '&' || c == '\\'
    | .plain => c == '\\'
  if special then ['\\', c] else [c]

/-- A character with a number in some base of so many digits. -/
def numbered? (base width : Nat) (t : Octets) : Option (Char × Octets) :=
  let digits := (t.take width).takeWhile fun c => digitValue c < base
  if digits = [] then none
  else
    let value := digits.foldl (fun n c => n * base + digitValue c) 0
    some (Char.ofNat (value % 256), t.drop digits.length)

/-- Writes characters for the backslashes that name them. The first argument bounds the steps; a
backslash that names none is kept. -/
def escapes (u : Use) : Nat → Octets → Except ScriptFailure Octets
  | 0, t => .ok t
  | bound + 1, t =>
    match t with
    | [] => .ok []
    | '\\' :: c :: rest =>
      let named := fun x : Char => (escapes u bound rest).map (x :: ·)
      let numbered := fun (base width : Nat) =>
        match numbered? base width rest with
        | some (x, rest) => (escapes u bound rest).map (u.quoted x ++ ·)
        | none => (escapes u bound rest).map ('\\' :: c :: ·)
      match c with
      | 'a' => named '\x07'
      | 'f' => named '\x0c'
      | 'n' => if u = .plain then named '\n' else (escapes u bound rest).map ('\\' :: c :: ·)
      | 'r' => named '\r'
      | 't' => named '\t'
      | 'v' => named '\x0b'
      | 'd' => numbered 10 3
      | 'o' => numbered 8 3
      | 'x' => numbered 16 2
      | 'c' =>
        match rest with
        | '\\' :: '\\' :: rest => (escapes u bound rest).map ('\x1c' :: ·)
        | '\\' :: _ => .error .nestedEscape
        | x :: rest =>
          let control := Char.ofNat (x.toUpper.toNat ^^^ 64)
          (escapes u bound rest).map (u.quoted control ++ ·)
        | [] => .ok ['\\', c]
      | _ => (escapes u bound rest).map ('\\' :: c :: ·)
    | c :: rest => (escapes u bound rest).map (c :: ·)

def named (u : Use) (t : Octets) : Scan Octets :=
  match escapes u (t.length + 1) t with
  | .ok t => pure t
  | .error f => refuse f

/-- The expression of a text; the one used last for the empty text, which cannot be changed. -/
def pattern (t : Octets) (folds lines : Bool) : Scan Pattern := do
  if t = [] then
    if folds || lines then refuse .changedEmpty
    return none
  let extended := (← get).extended
  let t ← named .expression t
  match Text.Regex.read ⟨extended, true⟩ t with
  | .ok r => return some (r, ⟨folds, lines⟩)
  | .error e => refuse (.badPattern e)

/-- An address as it is written. -/
inductive Written where
  | plain (a : Address)
  | later (n : Nat)
  | multiple (n : Nat)
  deriving DecidableEq, Repr

/-- The letters that change how the expression of an address is looked for. The first argument bounds
their number. -/
def addressFlags : Nat → Bool → Bool → Scan (Bool × Bool)
  | 0, folds, lines => return (folds, lines)
  | bound + 1, folds, lines => do
    match ← takeNonblank? with
    | some 'I' => addressFlags bound true lines
    | some 'M' => addressFlags bound folds true
    | c =>
      giveBack c
      return (folds, lines)

/-- An address whose first character has been taken; nothing if it starts none. -/
def address? (c : Option Char) : Scan (Option Written) := do
  match c with
  | none => return none
  | some '$' => return some (.plain .last)
  | some c =>
    if c = '/' || c = '\\' then
      let slash? ← if c = '\\' then take? else pure (some c)
      match slash? with
      | none => refuse .openAddress
      | some slash =>
        let t ← delimited slash true .openAddress
        let (folds, lines) ← addressFlags ((← get).rest.length + 1) false false
        return some (.plain (.matching (← pattern t folds lines)))
    else if Text.isDigit c then
      let n ← number (some c)
      let next ← takeNonblank?
      if next = some '~' then
        let step ← number (← takeNonblank?)
        return some (.plain (if step = 0 then .line n else .every n step))
      else
        giveBack next
        return some (.plain (.line n))
    else if c = '+' || c = '~' then
      let n ← number (← takeNonblank?)
      return some (if n = 0 then .later 0 else if c = '+' then .later n else .multiple n)
    else return none

/-- Takes the end of a command. -/
def finish : Scan Unit := do
  let c ← takeNonblank?
  match c with
  | none | some '\n' | some ';' => pure ()
  | some '\x7d' | some '#' => giveBack c
  | some _ => refuse .surplus

/-- A label: what stands before a space, a semicolon or the end of a block. -/
def label : Scan Octets := do
  let _ ← takeWhile isBlank
  takeWhile fun c => !(isSpace c || c == ';' || c == '\x7d')

/-- The name of a file: the rest of a line. -/
def fileName : Scan Octets := do
  let _ ← takeWhile isBlank
  let name ← takeWhile (· != '\n')
  let _ ← take?
  if name = [] then refuse .noFile
  return name

/-- A text that is added: up to the end of a line without a backslash before it. Nothing is behind a
backslash that ends a part of a script. -/
def lineText : Octets → Octets × Bool × Nat
  | [] => ([], false, 0)
  | '\n' :: _ => ([], false, 1)
  | ['\\'] => ([], true, 1)
  | '\\' :: c :: rest =>
    let (t, open?, n) := lineText rest
    ('\\' :: c :: t, open?, n + 2)
  | c :: rest =>
    let (t, open?, n) := lineText rest
    (c :: t, open?, n + 1)

/-- A text without the backslashes that are left in it. -/
def withoutBackslashes : Octets → Octets
  | '\\' :: c :: rest => c :: withoutBackslashes rest
  | c :: rest => c :: withoutBackslashes rest
  | [] => []

/-- A step with the text that has been read for it. -/
def Step.withText (s : Step) (t : Octets) : Step :=
  match s.action with
  | .append _ => { s with action := .append t }
  | .insert _ => { s with action := .insert t }
  | .change _ => { s with action := .change t }
  | .evaluate _ => { s with action := .evaluate t }
  | _ => s

def push (s : Step) : Scan Unit := modify fun c => { c with steps := c.steps.push s }

/-- Reads a text that is added, behind a part that has been read before. -/
def textFor (s : Step) (before : Octets) : Scan Unit := do
  let c ← get
  let (t, goesOn, n) := lineText c.rest
  set { c with
    rest := c.rest.drop n
    taken := c.taken + n
    line := c.line + (c.rest.take n).count '\n' }
  let t := before ++ t
  if goesOn then modify fun c => { c with unfinished := some (t ++ ['\n'], s) }
  else
    let t ← named .plain t
    push (Step.withText s (withoutBackslashes (t ++ ['\n'])))

/-- The parts of a replacement. -/
def pieces : Octets → List Piece
  | [] => []
  | '&' :: rest => .part 0 :: pieces rest
  | '\\' :: c :: rest =>
    let piece := match c with
      | 'U' => Piece.letters .upper
      | 'L' => .letters .lower
      | 'E' => .letters .plain
      | 'u' => .letters .nextUpper
      | 'l' => .letters .nextLower
      | 'n' => .text ['\n']
      | _ => if Text.isDigit c then .part (c.toNat - '0'.toNat) else .text [c]
    piece :: pieces rest
  | c :: rest => .text [c] :: pieces rest

/-- Reads the flags of a substitution. The first argument bounds their number. -/
def flags : Nat → Substitution → Bool → Bool → Scan (Substitution × Bool × Bool)
  | 0, s, folds, lines => return (s, folds, lines)
  | bound + 1, s, folds, lines => do
    let c ← take?
    match c with
    | none | some '\n' | some ';' => return (s, folds, lines)
    | some '\x7d' | some '#' =>
      giveBack c
      return (s, folds, lines)
    | some 'i' | some 'I' => flags bound s true lines
    | some 'm' | some 'M' => flags bound s folds true
    | some 'e' => flags bound { s with evaluates := true } folds lines
    | some 'p' =>
      if s.prints then refuse .manyPrints
      flags bound { s with prints := true } folds lines
    | some 'g' =>
      if s.all then refuse .manyAlls
      flags bound { s with all := true } folds lines
    | some 'w' => return ({ s with file := some (← fileName) }, folds, lines)
    | some x =>
      if Text.isDigit x then
        if s.nth != 0 then refuse .manyNumbers
        let n ← number c
        if n = 0 then refuse .zeroNumber
        flags bound { s with nth := n } folds lines
      else if isBlank x then flags bound s folds lines
      else refuse .unknownFlag

def substitution : Scan Action := do
  match ← take? with
  | none => refuse .openSubstitution
  | some slash =>
    let t ← delimited slash true .openSubstitution
    let replacement ← delimited slash false .openSubstitution
    let parts := pieces (← named .replacement replacement)
    let (s, folds, lines) ← flags ((← get).rest.length + 1) ⟨none, parts, 0, false, false, false, none⟩
      false false
    let p ← pattern t folds lines
    let most := parts.foldl (fun n p => match p with | .part k => max n k | _ => n) 0
    match p with
    | some (r, _) => if r.groupCount < most then refuse (.noPart most)
    | none => pure ()
    return .substitute { s with pattern := p, nth := max s.nth 1 }

/-- A text of letters without the backslashes before them. -/
def letters : Octets → Octets
  | '\\' :: 'n' :: rest => '\n' :: letters rest
  | '\\' :: c :: rest => c :: letters rest
  | c :: rest => c :: letters rest
  | [] => []

def exchange : Scan Action := do
  match ← take? with
  | none => refuse .openExchange
  | some slash =>
    let source := letters (← named .replacement (← delimited slash false .openExchange))
    let target := letters (← named .replacement (← delimited slash false .openExchange))
    if source.length != target.length then refuse .differentLengths
    finish
    return .exchangeLetters (source.zip target)

/-- A number that may follow a command. -/
def optionalNumber : Scan (Option Nat) := do
  let c ← takeNonblank?
  if c.any Text.isDigit then return some (← number c)
  else
    giveBack c
    return none

/-- Reads a text that is added, of which the command has been taken. -/
def textCommand (s : Step) : Scan Unit := do
  let c ← takeNonblank?
  match c with
  | none => refuse .noText
  | some '\\' =>
    match ← take? with
    | none => modify fun c => { c with unfinished := some ([], s) }
    | some '\n' => textFor s []
    | some c => textFor s [c]
  | some _ =>
    giveBack c
    textFor s []

/-- Reads a command whose letter has been taken. -/
def command (first : Option Address) (stop : Option RangeEnd) (negated : Bool) (c : Char) :
    Scan Unit := do
  let step := fun a : Action => (⟨first, stop, negated, a⟩ : Step)
  let plain := fun a : Action => do
    finish
    push (step a)
  match c with
  | '#' =>
    if first.isSome then refuse .addressedComment
    let c ← get
    if c.isFirst && c.taken = 1 && c.rest.head? = some 'n' then set { c with silent := true }
    let _ ← takeWhile (· != '\n')
    let _ ← take?
  | 'v' =>
    let version ← label
    if version.head? = some '9' then refuse .tooNew
  | '\x7b' =>
    modify fun c => { c with blocks := (c.steps.size, c.source, c.line) :: c.blocks }
    push ⟨first, stop, !negated, .block 0⟩
  | '\x7d' =>
    let c ← get
    match c.blocks with
    | [] => refuse .noBlock
    | (start, _) :: outer =>
      if first.isSome then refuse .addressedEnd
      finish
      modify fun c =>
        { c with
          blocks := outer
          steps := (c.steps.modify start fun s => { s with action := .block (c.steps.size + 1) }).push
            (step .nothing) }
  | 'e' =>
    let _ ← takeWhile isBlank
    match (← get).rest with
    | [] => push (step (.evaluate []))
    | '\n' :: _ => plain (.evaluate [])
    | _ => textFor (step (.evaluate [])) []
  | 'a' => textCommand (step (.append []))
  | 'i' => textCommand (step (.insert []))
  | 'c' => textCommand (step (.change []))
  | ':' =>
    if first.isSome then refuse .addressedLabel
    let name ← label
    if name = [] then refuse .noLabel
    push (step (.label name))
  | 'b' => branch step .always
  | 't' => branch step .replaced
  | 'T' => branch step .unreplaced
  | 'q' | 'Q' =>
    if stop.isSome then refuse .oneAddress
    let n ← optionalNumber
    plain (if c = 'q' then .quit (n.getD 0) else .leave (n.getD 0))
  | 'l' =>
    let n ← optionalNumber
    plain (.display n)
  | '=' => plain .number
  | 'd' => plain .delete
  | 'D' => plain .deleteFirst
  | 'F' => plain .fileName
  | 'g' => plain .fetch
  | 'G' => plain .fetchMore
  | 'h' => plain .hold
  | 'H' => plain .holdMore
  | 'n' => plain .next
  | 'N' => plain .join
  | 'p' => plain .print
  | 'P' => plain .printFirst
  | 'z' => plain .clear
  | 'x' => plain .exchange
  | 'r' => push (step (.readFile (← fileName)))
  | 'R' => push (step (.readLine (← fileName)))
  | 'w' => push (step (.writeFile (← fileName)))
  | 'W' => push (step (.writeFirst (← fileName)))
  | 's' =>
    let a ← substitution
    push (step a)
  | 'y' =>
    let a ← exchange
    push (step a)
  | _ => refuse (.unknownCommand c)
where
  branch (step : Action → Step) (rule : BranchRule) : Scan Unit := do
    let name ← label
    let _ ← takeWhile isBlank
    push (step (.branch rule name))

/-- Reads the addresses of a command, of which a character has been taken, and the character behind
them. -/
def addresses (c : Option Char) : Scan (Option Address × Option RangeEnd × Option Char) := do
  match ← address? c with
  | none => return (none, none, c)
  | some (.plain first) =>
    let c ← takeNonblank?
    let (stop, c) ← do
      if c = some ',' then
        match ← address? (← takeNonblank?) with
        | none => refuse .noSecondAddress
        | some (.plain a) => pure (some (RangeEnd.address a), ← takeNonblank?)
        | some (.later n) => pure (some (RangeEnd.later n), ← takeNonblank?)
        | some (.multiple n) => pure (some (RangeEnd.multiple n), ← takeNonblank?)
      else pure (none, c)
    match first, stop with
    | .line 0, some (.address (.matching _)) => pure ()
    | .line 0, _ => refuse .lineZero
    | _, _ => pure ()
    return (some first, stop, c)
  | some _ => refuse .relativeFirst

/-- Reads the commands of a part of a script. The first argument bounds their number. -/
def commands : Nat → Scan Unit
  | 0 => pure ()
  | bound + 1 => do
    let _ ← takeWhile fun c => isSpace c || c == ';'
    match ← take? with
    | none => pure ()
    | c =>
      let (first, stop, c) ← addresses c
      let (negated, c) ← do
        if c = some '!' then
          let c ← takeNonblank?
          if c = some '!' then refuse .manyNegations
          pure (true, c)
        else pure (false, c)
      match c with
      | none => refuse .noCommand
      | some c =>
        command first stop negated c
        commands bound

/-- Reads one more part of a script. -/
def part (first : Bool) (source : Source) (t : Octets) : Scan Unit := do
  modify fun c =>
    { c with rest := t, source := source, taken := 0, line := 1, isFirst := first }
  match (← get).unfinished with
  | some (before, s) =>
    modify fun c => { c with unfinished := none }
    textFor s before
  | none => pure ()
  commands (t.length + 1)

/-- What the commands need when all of them have been read. -/
def close : Scan Unit := do
  let c ← get
  match c.unfinished with
  | some (before, s) =>
    let t ← named .plain before.dropLast
    push (Step.withText s (withoutBackslashes t ++ (if t = [] then [] else ['\n'])))
  | none => pure ()
  let c ← get
  match c.blocks with
  | (_, source, line) :: _ => throw ⟨source, 0, line, .openBlock⟩
  | [] => pure ()
  for s in c.steps do
    match s.action with
    | .branch _ name => if (placeOfLabel? c.steps name).isNone then refuse (.noSuchLabel name)
    | _ => pure ()

end Reader

/-- The commands of a script in parts, and whether it starts with the comment that asks for silence. -/
def read (extended : Bool) (parts : List (Source × Octets)) :
    Except Complaint (Array Step × Bool) :=
  let all : Scan Unit := do
    for ((source, t), n) in parts.zipIdx do Reader.part (n == 0) source t
    Reader.close
  match all.run ⟨[], .expression 1, 0, 1, extended, #[], [], none, true, false⟩ with
  | .ok (_, c) => .ok (c.steps, c.silent)
  | .error e => .error e

end BitcodeReplay.Tool.Sed
