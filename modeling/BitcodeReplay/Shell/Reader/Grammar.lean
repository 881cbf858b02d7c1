import BitcodeReplay.Shell.Reader.Cursor

/-!
The grammar of the command language: words and their parts, commands, lists of commands, and the lines
of a script. Every function takes fuel, which bounds how deep it can go.
-/

namespace BitcodeReplay.Shell.Reader

/-- Takes the name of a parameter; nothing if none comes next. -/
def parameterName (braced : Bool) : Scan Octets := do
  joinLines
  match ← rest with
  | c :: _ =>
    if Arithmetic.isNameStart c then takeRun Arithmetic.isNameChar
    else if Text.isDigit c then
      if braced then takeRun Text.isDigit
      else
        drop 1
        return [c]
    else if isSpecial c then
      drop 1
      return [c]
    else return []
  | [] => return []

/-- The operator after a parameter between braces, or nothing if there is none. -/
def operator? : Scan (Option Operator) := do
  joinLines
  let all ← rest
  let empty := all.head? = some ':'
  let text := if empty then all.drop 1 else all
  let width := if empty then 2 else 1
  match text with
  | '\x7d' :: _ => drop (width - 1); return some .value
  | '-' :: _ => drop width; return some (.orElse empty)
  | '=' :: _ => drop width; return some (.orAssign empty)
  | '?' :: _ => drop width; return some (.orFail empty)
  | '+' :: _ => drop width; return some (.ifSet empty)
  | '#' :: more =>
    if empty then return none
    let double := more.head? = some '#'
    drop (if double then 2 else 1)
    return some (.stripStart double)
  | '%' :: more =>
    if empty then return none
    let double := more.head? = some '%'
    drop (if double then 2 else 1)
    return some (.stripEnd double)
  | _ => return none

/-- The sign of a redirection. -/
def redirectionSign : Scan String := do
  let signs := ["<<-", "<<", "<>", "<&", "<", ">>", ">|", ">&"]
  joinLines
  for sign in signs do
    if ← accept sign then return sign
  drop 1
  return ">"

/-- A parameter whose length is asked for: its name, if what comes next is one with its closing
brace. -/
def lengthName? : Scan (Option Octets) := do
  match ← rest with
  | '#' :: c :: more =>
    if Arithmetic.isNameChar c then
      drop 1
      return some (← parameterName true)
    else if c != '\x7d' && more.head? = some '\x7d' && isSpecial c then
      drop 2
      return some [c]
    else return none
  | _ => return none

mutual

/-- The parts of a word up to its end in a mode. -/
def parts : Nat → Mode → Scan Word
  | 0, _ => refuse .unterminated
  | fuel + 1, mode => do
    match ← takeRun mode.isPlain with
    | c :: run => return .text (c :: run) mode.quotes :: (← parts fuel mode)
    | [] =>
      match ← rest with
      | [] =>
        match mode with
        | .word | .document => return []
        | .double | .brace true => refuse .unterminated
        | .brace false => refuse (.unclosed "\x7d")
        | .arithmetic _ => refuse (.unclosed "))")
      | '\\' :: following =>
        match following with
        | '\n' :: _ => drop 2; parts fuel mode
        | c :: _ =>
          if mode.quotes && !mode.isEscapable c then
            drop 1
            return .text ['\\'] true :: (← parts fuel mode)
          else
            drop 2
            return .text [c] true :: (← parts fuel mode)
        | [] =>
          drop 1
          return .text ['\\'] mode.quotes :: (← parts fuel mode)
      | '$' :: _ =>
        drop 1
        let part ← dollar fuel mode.quotes
        return part :: (← parts fuel mode)
      | '\x60' :: _ =>
        drop 1
        let part ← backQuoted fuel mode.quotes
        return part :: (← parts fuel mode)
      | '\'' :: _ =>
        drop 1
        let text ← takeRun (· != '\'')
        if !(← accept "'") then refuse .unterminated
        return .text text true :: (← parts fuel mode)
      | '"' :: _ =>
        drop 1
        if mode = .double then return []
        let inner ← parts fuel .double
        let more ← parts fuel mode
        return (if inner.isEmpty then [.text [] true] else inner) ++ more
      | c :: _ =>
        match mode with
        | .brace _ => drop 1; return []
        | .arithmetic depth =>
          drop 1
          if c = '(' then
            return .text ['('] true :: (← parts fuel (.arithmetic (depth + 1)))
          else if depth > 0 then
            return .text [')'] true :: (← parts fuel (.arithmetic (depth - 1)))
          else
            joinLines
            if ← accept ")" then return []
            return .text [')'] true :: (← parts fuel (.arithmetic 0))
        | _ => return []

/-- What a dollar sign introduces. -/
def dollar : Nat → Bool → Scan Part
  | 0, _ => refuse .unterminated
  | fuel + 1, quoted => do
    joinLines
    if ← accept "(" then
      joinLines
      if ← accept "(" then return .arithmetic (← parts fuel (.arithmetic 0)) quoted
      let before := (← get).announced
      modify fun c => { c with announced := [] }
      let body ← list fuel false true
      let token ← token fuel false false false
      match token with
      | .operator ")" => pure ()
      | other => refuseToken other (some (.operator ")"))
      modify fun c => { c with announced := before }
      return .substitution body quoted
    else if ← accept "\x7b" then braced fuel quoted
    else
      match ← parameterName false with
      | [] => return .text ['$'] quoted
      | name => return .parameter name .value [] quoted

/-- A parameter between braces. -/
def braced : Nat → Bool → Scan Part
  | 0, _ => refuse .unterminated
  | fuel + 1, quoted => do
    joinLines
    match ← lengthName? with
    | some name =>
      if ← accept "\x7d" then return .parameter name .length [] quoted
      let _ ← parts fuel (.brace quoted)
      return .broken
    | none =>
      let name ← parameterName true
      let operator ← if name.isEmpty then pure none else operator?
      match operator with
      | none =>
        let _ ← parts fuel (.brace quoted)
        return .broken
      | some operator =>
        if operator = .value then
          drop 1
          return .parameter name .value [] quoted
        let argument ← parts fuel (.brace (quoted && !isStrip operator))
        return .parameter name operator argument quoted

/-- A command between back quotes. -/
def backQuoted : Nat → Bool → Scan Part
  | 0, _ => refuse .unterminated
  | fuel + 1, quoted => do
    match backLength? (← rest) with
    | none =>
      drop (← rest).length
      refuse .openBackQuote
    | some n =>
      let text := unquoteBack quoted ((← rest).take n)
      drop (n + 1)
      let after ← get
      set { after with rest := text, line := 1, announced := [], held := none }
      let body ← list fuel false true
      match ← token fuel false false false with
      | .endOfFile => pure ()
      | other => refuseToken other (some .endOfFile)
      let documents := (← get).documents
      set { after with documents := documents }
      return .substitution body quoted

/-- The lines of a document up to its ending. -/
def document : Nat → Announced → Scan Word
  | 0, _ => refuse .unterminated
  | fuel + 1, a => do
    if a.tabs then
      let _ ← takeRun (· == '\t')
    if (← rest) = [] then return []
    if ← acceptEnding a then return []
    let line ← parts fuel .document
    let ended ← accept "\n"
    return line ++ (if ended then [.text ['\n'] true] else []) ++ (← document fuel a)

/-- Reads the documents that the line before has announced. -/
def announcedDocuments : Nat → Scan Unit
  | 0 => refuse .unterminated
  | fuel + 1 => do
    match (← get).announced with
    | [] => return ()
    | a :: more =>
      modify fun c => { c with announced := more }
      let word ←
        if a.quoted then
          let text ← quotedDocument a ((← rest).length + 1)
          pure [.text text true]
        else document fuel a
      modify fun c => { c with documents := c.documents.setIfInBounds a.index word }
      announcedDocuments fuel

/-- The next token. The flags say whether reserved words and aliases count here, and whether line
feeds are skipped. -/
def token : Nat → Bool → Bool → Bool → Scan Token
  | 0, _, _, _ => refuse .unterminated
  | fuel + 1, keywords, aliases, lines => do
    match (← get).held with
    | some held =>
      modify fun c => { c with held := none }
      settleToken fuel keywords false lines held
    | none =>
      drop (gapLength (← rest))
      if gapLength (← rest) > 0 then token fuel keywords aliases lines
      else
        let chained ← takeChained
        match ← rest with
        | [] => return .endOfFile
        | '\n' :: _ =>
          drop 1
          announcedDocuments fuel
          settleToken fuel keywords aliases lines .newline
        | '&' :: _ =>
          drop 1
          joinLines
          return .operator (if ← accept "&" then "&&" else "&")
        | '|' :: _ =>
          drop 1
          joinLines
          return .operator (if ← accept "|" then "||" else "|")
        | ';' :: _ =>
          drop 1
          joinLines
          return .operator (if ← accept ";" then ";;" else ";")
        | '(' :: _ => drop 1; return .operator "("
        | ')' :: _ => drop 1; return .operator ")"
        | '<' :: _ | '>' :: _ => return .redirection none (← redirectionSign)
        | c :: next :: _ =>
          if Text.isDigit c && (next = '<' || next = '>') then
            drop 1
            return .redirection (some (c.toNat - '0'.toNat)) (← redirectionSign)
          else
            let word ← parts fuel .word
            settleToken fuel keywords (aliases || chained) lines (.word word)
        | _ =>
          let word ← parts fuel .word
          settleToken fuel keywords (aliases || chained) lines (.word word)

/-- What a token counts as where it stands. -/
def settleToken : Nat → Bool → Bool → Bool → Token → Scan Token
  | 0, _, _, _, _ => refuse .unterminated
  | fuel + 1, keywords, aliases, lines, t => do
    match t with
    | .newline => if lines then token fuel keywords aliases lines else return .newline
    | .word w =>
      match plain? w with
      | none => return t
      | some text =>
        if keywords && reserved.contains (String.ofList text) then
          return .keyword (String.ofList text)
        if !aliases then return t
        match ← alias? text with
        | none => return t
        | some value =>
          replaceAlias text value
          token fuel keywords true lines
    | _ => return t

/-- Takes a reserved word or a sign that has to come next. -/
def expect : Nat → String → Scan Unit
  | 0, _ => refuse .unterminated
  | fuel + 1, text => do
    match ← token fuel true true true with
    | .keyword k => if k != text then refuseToken (.keyword k) (some (.operator text))
    | .operator o => if o != text then refuseToken (.operator o) (some (.operator text))
    | other => refuseToken other (some (.operator text))

/-- Commands up to what ends them: the end of the line at the top, or else a token that closes the
list. Unless `mayBeEmpty` is set there has to be one. -/
def list : Nat → Bool → Bool → Scan (List Command)
  | 0, _, _ => refuse .unterminated
  | fuel + 1, top, mayBeEmpty => do
    let first ← token fuel true true (!top)
    match first with
    | .newline => return []
    | .endOfFile =>
      hold first
      return []
    | _ =>
      hold first
      if !top && mayBeEmpty && first.endsList then return []
      let one ← joined fuel
      match ← token fuel false false false with
      | .operator "&" => return .background one :: (← list fuel top true)
      | .operator ";" => return one :: (← list fuel top true)
      | .newline =>
        if top then return [one]
        return one :: (← list fuel top true)
      | .endOfFile =>
        hold .endOfFile
        return [one]
      | other =>
        if top then refuseToken other none
        hold other
        return [one]

/-- Pipelines that are joined by conditions. -/
def joined : Nat → Scan Command
  | 0 => refuse .unterminated
  | fuel + 1 => do
    let first ← pipeline fuel
    joinedFrom fuel first

def joinedFrom : Nat → Command → Scan Command
  | 0, _ => refuse .unterminated
  | fuel + 1, first => do
    match ← token fuel false false false with
    | .operator "&&" =>
      hold (← token fuel true true true)
      let second ← pipeline fuel
      joinedFrom fuel (.both first second)
    | .operator "||" =>
      hold (← token fuel true true true)
      let second ← pipeline fuel
      joinedFrom fuel (.either first second)
    | other =>
      hold other
      return first

def pipeline : Nat → Scan Command
  | 0 => refuse .unterminated
  | fuel + 1 => do
    match ← token fuel true true false with
    | .keyword "!" =>
      hold (← token fuel true true false)
      return .negated (← stages fuel)
    | other =>
      hold other
      stages fuel

def stages : Nat → Scan Command
  | 0 => refuse .unterminated
  | fuel + 1 => do
    let first ← command fuel
    match ← token fuel false false false with
    | .operator "|" =>
      hold (← token fuel true true true)
      match ← stages fuel with
      | .pipeline more => return .pipeline (first :: more)
      | last => return .pipeline [first, last]
    | other =>
      hold other
      return first

/-- One command with its redirections. -/
def command : Nat → Scan Command
  | 0 => refuse .unterminated
  | fuel + 1 => do
    let first ← token fuel true true false
    let line := (← get).line
    match first with
    | .word _ | .redirection _ _ =>
      hold first
      simple fuel line [] [] []
    | .operator "(" =>
      let inner ← list fuel false false
      expect fuel ")"
      let targets ← redirections fuel
      return .subshell line inner targets
    | .keyword k =>
      let inner ← compound fuel line first k
      match ← redirections fuel with
      | [] => return inner
      | targets => return .redirected line inner targets
    | other => refuseToken other none

/-- What a reserved word introduces. -/
def compound : Nat → Nat → Token → String → Scan Command
  | 0, _, _, _ => refuse .unterminated
  | fuel + 1, line, first, word => do
    match word with
    | "if" => branch fuel
    | "while" | "until" =>
      let condition ← list fuel false false
      expect fuel "do"
      let inner ← list fuel false false
      expect fuel "done"
      return .loop (word == "until") condition inner
    | "for" => each fuel line
    | "case" =>
      let subject ← match ← token fuel false false false with
        | .word w => pure w
        | other => refuseToken other (some .word)
      expect fuel "in"
      return .choice line subject (← arms fuel)
    | "\x7b" =>
      let inner ← list fuel false false
      expect fuel "\x7d"
      return .group inner
    | _ => refuseToken first none

/-- A condition, its commands, and what stands for the other case. -/
def branch : Nat → Scan Command
  | 0 => refuse .unterminated
  | fuel + 1 => do
    let condition ← list fuel false false
    expect fuel "then"
    let inner ← list fuel false false
    match ← token fuel true true true with
    | .keyword "elif" => return .branch condition inner [← branch fuel]
    | .keyword "else" =>
      let otherwise ← list fuel false false
      expect fuel "fi"
      return .branch condition inner otherwise
    | other =>
      hold other
      expect fuel "fi"
      return .branch condition inner []

def each : Nat → Nat → Scan Command
  | 0, _ => refuse .unterminated
  | fuel + 1, line => do
    let name ← match ← token fuel false false false with
      | .word w =>
        match plain? w with
        | some name =>
          if name.head?.any Arithmetic.isNameStart && name.all Arithmetic.isNameChar then pure name
          else refuse .badLoopVariable
        | none => refuse .badLoopVariable
      | _ => refuse .badLoopVariable
    let words ← match ← token fuel true true true with
      | .keyword "in" => pure (some (← wordList fuel))
      | .operator ";" => pure none
      | other =>
        hold other
        pure none
    expect fuel "do"
    let inner ← list fuel false false
    expect fuel "done"
    return .each line name words inner

/-- Words up to the end of a command. -/
def wordList : Nat → Scan (List Word)
  | 0 => refuse .unterminated
  | fuel + 1 => do
    match ← token fuel false false false with
    | .word w => return w :: (← wordList fuel)
    | .newline | .operator ";" => return []
    | other => refuseToken other none

/-- The arms of a choice up to its end. -/
def arms : Nat → Scan (List (List Word × List Command))
  | 0 => refuse .unterminated
  | fuel + 1 => do
    match ← token fuel true false true with
    | .keyword "esac" => return []
    | .operator "(" =>
      let first ← token fuel false false false
      arm fuel first
    | first => arm fuel first

/-- An arm that starts with a token, and those after it. -/
def arm : Nat → Token → Scan (List (List Word × List Command))
  | 0, _ => refuse .unterminated
  | fuel + 1, first => do
    let patterns ← alternatives fuel first
    let inner ← list fuel false true
    match ← token fuel true false true with
    | .keyword "esac" => return [(patterns, inner)]
    | .operator ";;" => return (patterns, inner) :: (← arms fuel)
    | other => refuseToken other (some (.operator ";;"))

/-- Patterns between bars, up to the parenthesis that closes them. -/
def alternatives : Nat → Token → Scan (List Word)
  | 0, _ => refuse .unterminated
  | fuel + 1, first => do
    let pattern ← match first with
      | .word w => pure w
      | .keyword k => pure [.text k.toList false]
      | other => refuseToken other (some (.operator ")"))
    match ← token fuel false false false with
    | .operator "|" =>
      let next ← token fuel false false false
      return pattern :: (← alternatives fuel next)
    | .operator ")" => return [pattern]
    | other => refuseToken other (some (.operator ")"))

/-- A command of words, with what has been read of it. -/
def simple : Nat → Nat → List (Octets × Word) → List Word → List Redirection → Scan Command
  | 0, _, _, _, _ => refuse .unterminated
  | fuel + 1, line, assignments, words, targets => do
    match ← token fuel false words.isEmpty false with
    | .redirection number sign =>
      simple fuel line assignments words (targets ++ [← redirection fuel number sign])
    | .word w =>
      match words, assignment? Arithmetic.isNameStart Arithmetic.isNameChar w with
      | [], some assignment => simple fuel line (assignments ++ [assignment]) [] targets
      | _, _ => simple fuel line assignments (words ++ [w]) targets
    | .operator "(" =>
      match assignments, words, targets with
      | [], [name], [] => definition fuel name
      | _, _, _ =>
        hold (.operator "(")
        return .simple line assignments words targets
    | other =>
      hold other
      return .simple line assignments words targets

/-- A function after its name and the opening parenthesis. -/
def definition : Nat → Word → Scan Command
  | 0, _ => refuse .unterminated
  | fuel + 1, name => do
    match ← token fuel false false false with
    | .operator ")" => pure ()
    | other => refuseToken other (some (.operator ")"))
    let text := (plain? name).getD []
    if !(text.head?.any Arithmetic.isNameStart && text.all Arithmetic.isNameChar) ||
        specialBuiltins.contains (String.ofList text) then
      refuse .badFunctionName
    let line := (← get).line
    hold (← token fuel true true true)
    return .define line text (← command fuel)

/-- A redirection after its sign. -/
def redirection : Nat → Option Nat → String → Scan Redirection
  | 0, _, _ => refuse .unterminated
  | fuel + 1, number, sign => do
    if sign = "<<" || sign = "<<-" then
      drop (gapLength (← rest))
      let (ending, quoted, count) := delimiter (← rest)
      if count = 0 then refuseToken (← token fuel false false false) none
      drop count
      let index := (← get).documents.size
      modify fun c =>
        { c with
          documents := c.documents.push []
          announced := c.announced ++ [⟨index, ending, quoted, sign == "<<-"⟩] }
      return .document (number.getD 0) index
    let direction : Direction := match sign with
      | "<" => .read
      | "<>" => .readWrite
      | ">>" => .append
      | ">|" => .overwrite
      | ">" => .write
      | _ => .duplicate
    match ← token fuel false false false with
    | .word w => return .path (number.getD (if sign.front = '<' then 0 else 1)) direction w
    | other => refuseToken other none

/-- The redirections after a compound command. -/
def redirections : Nat → Scan (List Redirection)
  | 0 => refuse .unterminated
  | fuel + 1 => do
    match ← token fuel true true false with
    | .redirection number sign =>
      let first ← redirection fuel number sign
      return first :: (← redirections fuel)
    | other =>
      hold other
      return []

end

end BitcodeReplay.Shell.Reader

namespace BitcodeReplay.Shell

/-! ### Reading line by line

What stands before a line that cannot be read is still run, and what it runs can change how the next
line is read. -/

/-- The commands of a line, and what is left of the script behind it. -/
structure ReadLine where
  commands : List Command
  cursor : Reader.Cursor
  atEnd : Bool

namespace Script

/-- The start of a script, for a shell that knows some documents already. -/
def start (text : Octets) (documents : Array Word) : Reader.Cursor :=
  ⟨text, 1, none, documents, [], [], [], false⟩

/-- Reads the next line that holds a command; nothing at the end of the script. -/
def next? (fuel : Nat) (aliases : List (Octets × Octets)) (cursor : Reader.Cursor) :
    Except SyntaxFailure (Option ReadLine) :=
  match Reader.list fuel true false { cursor with held := none, aliases := aliases } with
  | .error e => .error e
  | .ok ([], after) =>
    match after.held with
    | some .endOfFile => .ok none
    | _ => .ok (some ⟨[], after, false⟩)
  | .ok (commands, after) =>
    let atEnd := match after.held with
      | some .endOfFile => true
      | _ => false
    .ok (some ⟨commands, after, atEnd⟩)

end Script

end BitcodeReplay.Shell
