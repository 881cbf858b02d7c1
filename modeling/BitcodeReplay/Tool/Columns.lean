import BitcodeReplay.Shell.Format
import BitcodeReplay.Tool.Basic

/-!
The tools that work on the characters and the columns of lines: choosing, joining, replacing and
folding them.
-/

namespace BitcodeReplay.Tool

open Shell

/-- Places on a line, from a first to a last, if there is one. -/
abbrev Span := Nat × Option Nat

/-- Why a list of places cannot be read. -/
inductive SpanFailure where
  | zero
  | decreasing
  | invalid (word : Octets)
  | openBoth
  deriving DecidableEq, Repr

def spanOf (word : Octets) : Except SpanFailure Span :=
  let first := word.takeWhile Text.isDigit
  let rest := word.drop first.length
  match rest with
  | [] =>
    match decimal? first with
    | some 0 => .error .zero
    | some n => .ok (n, some n)
    | none => .error .zero
  | '-' :: second =>
    if second.all Text.isDigit then
      match decimal? first, decimal? second with
      | none, none => .error .openBoth
      | some 0, _ => .error .zero
      | some m, none => .ok (m, none)
      | none, some n => if n = 0 then .error .zero else .ok (1, some n)
      | some m, some n => if n < m then .error .decreasing else .ok (m, some n)
    else .error (.invalid (second.dropWhile Text.isDigit))
  | _ => .error (.invalid rest)

def spansOf (list : Octets) : Except SpanFailure (List Span) :=
  (list.splitOnP fun c => c == ',' || c == ' ' || c == '\t').mapM spanOf

def SpanFailure.message (fields : Bool) : SpanFailure → Octets
  | .zero =>
    text (if fields then "fields are numbered from 1"
      else "byte/character positions are numbered from 1")
  | .decreasing => text "invalid decreasing range"
  | .openBoth => text "invalid range with no endpoint: -"
  | .invalid word =>
    text (if fields then "invalid field value " else "invalid byte or character range ") ++
      Quote.always word

def isIn (spans : List Span) (place : Nat) : Bool :=
  spans.any fun (first, last) => first ≤ place && last.all (place ≤ ·)

/-- The chosen parts, in the order in which they stand. Parts that belong to spans that do not touch
are kept apart. -/
def chosenRuns {α : Type} (isChosen : Nat → Bool) (starts : Nat → Bool) (parts : List α) :
    List (List α) :=
  let step := fun (runs : List (List α) × Bool) (part : α × Nat) =>
    let place := part.2 + 1
    if isChosen place then
      match runs with
      | (run :: more, true) =>
        if starts place then ([part.1] :: run :: more, true) else ((part.1 :: run) :: more, true)
      | (more, _) => ([part.1] :: more, true)
    else (runs.1, false)
  ((parts.zipIdx.foldl step ([], false)).1.map List.reverse).reverse

/-- How `cut` takes lines apart. -/
structure Cut where
  spans : List Span
  complement : Bool
  fields : Bool
  delimiter : Char
  onlyDelimited : Bool
  output : Option Octets

def Cut.isChosen (c : Cut) (place : Nat) : Bool := isIn c.spans place != c.complement

/-- What is left of a line, if anything is written for it. -/
def Cut.line (c : Cut) (line : Octets) : Option Octets :=
  if c.fields then
    let parts := line.splitOn c.delimiter
    if parts.length ≤ 1 then if c.onlyDelimited then none else some line
    else
      let kept := parts.zipIdx.filter fun p => c.isChosen (p.2 + 1)
      some (List.intercalate (c.output.getD [c.delimiter]) (kept.map (·.1)))
  else
    match c.output with
    | none => some ((line.zipIdx.filter fun p => c.isChosen (p.2 + 1)).map (·.1))
    | some output =>
      let starts := fun place =>
        !c.complement && c.spans.any fun (first, _) => first == place && !(isIn c.spans (place - 1))
      some (List.intercalate output (chosenRuns c.isChosen starts line))

def cut (words : List Octets) : Act Unit :=
  let table := OptionTable.of "b:c:d:f:nsz"
    [("bytes", "b", .required), ("characters", "c", .required), ("fields", "f", .required),
      ("delimiter", "d", .required), ("only-delimited", "s", .nothing),
      ("output-delimiter", "output-delimiter", .required), ("complement", "complement", .nothing),
      ("zero-terminated", "z", .nothing)]
  withOptions table words fun given operands => do
    let lists := given.filter fun p => ["b", "c", "f"].contains p.1
    let delimiter := given.last? "d"
    match lists with
    | [] => misused 1 (text "you must specify a list of bytes, characters, or fields")
    | _ :: _ :: _ => misused 1 (text "only one list may be specified")
    | [(key, list)] =>
      let fields := key == "f"
      match spansOf list with
      | .error e => misused 1 (e.message fields)
      | .ok spans =>
        if delimiter.any fun d => d.length > 1 then
          misused 1 (text "the delimiter must be a single character")
        else if !fields && delimiter.isSome then
          misused 1 (text "an input delimiter may be specified only when operating on fields")
        else if !fields && given.has "s" then
          misused 1 (text "suppressing non-delimited lines makes sense\n\tonly when operating on fields")
        else
          let c : Cut :=
            ⟨spans, given.has "complement", fields, (delimiter.getD ['\t']).headD '\x00',
              given.has "s", given.last? "output-delimiter"⟩
          let ending := if given.has "z" then '\x00' else '\n'
          for path in orInput operands do
            let found := (← content? path).getD []
            let lines := found.splitOn ending
            let lines := if lines.getLast? = some [] then lines.dropLast else lines
            Act.put ((lines.filterMap c.line).flatMap (· ++ [ending]))

/-- The delimiters that a text stands for. -/
def delimiters : Octets → List Octets
  | '\\' :: c :: rest =>
    (match c with
      | 'n' => ['\n']
      | 't' => ['\t']
      | '0' => []
      | 'r' => ['\r']
      | c => [c]) :: delimiters rest
  | c :: rest => [c] :: delimiters rest
  | [] => []

/-- Parts with delimiters between them, which are taken in turn. -/
def joinWith (given : List Octets) : List Octets → Octets
  | [] => []
  | first :: rest =>
    first ++ (rest.zipIdx.flatMap fun (part, i) =>
      (if given = [] then [] else (given[i % given.length]?).getD []) ++ part)

/-- Lines of several texts side by side. The first argument bounds their number. -/
def sideBySide (given : List Octets) : Nat → List (List Octets) → List Octets
  | 0, _ => []
  | bound + 1, texts =>
    if texts.all (·.isEmpty) then []
    else
      joinWith given (texts.map fun t => t.headD []) ::
        sideBySide given bound (texts.map (List.drop 1))

/-- Every one of `count` lines from a place on. -/
def every (count place : Nat) (lines : List Octets) : List Octets :=
  (lines.zipIdx.filter fun p => p.2 % count == place).map (·.1)

def paste (words : List Octets) : Act Unit :=
  let table := OptionTable.of "d:sz"
    [("delimiters", "d", .required), ("serial", "s", .nothing), ("zero-terminated", "z", .nothing)]
  withOptions table words fun given operands => do
    let paths := orInput operands
    let separators := delimiters ((given.last? "d").getD ['\t'])
    let shared := (paths.filter (· == ['-'])).length
    let input ← if shared > 0 then do pure ((← content? ['-']).getD []).lines else pure []
    let mut texts := #[]
    let mut seen := 0
    for path in paths do
      if path = ['-'] then
        texts := texts.push
          (if given.has "s" then (if seen = 0 then input else []) else every shared seen input)
        seen := seen + 1
      else
        match ← content? path with
        | some found => texts := texts.push found.lines
        | none => if !given.has "s" then return ()
    if given.has "s" then putLines (texts.toList.map (joinWith separators))
    else
      let longest := texts.foldl (fun n t => max n t.length) 0
      putLines (sideBySide separators longest texts.toList)

/-- A part of a set of characters as `tr` reads it. -/
inductive TrItem where
  | chars (cs : Octets)
  | named (name : String)
  | fill (c : Char) (count : Option Nat)
  deriving DecidableEq, Repr

inductive TrFailure where
  | reversed (low high : Char)
  | badClass (name : Octets)
  deriving DecidableEq, Repr

/-- One character of a set, which may be written as an escape, and what follows. -/
def trChar? : Octets → Option (Char × Octets)
  | [] => none
  | '\\' :: c :: rest =>
    if '0' ≤ c && c ≤ '7' then
      let digits := ((c :: rest).take 3).takeWhile fun c => '0' ≤ c && c ≤ '7'
      some (Format.octalByte digits, (c :: rest).drop digits.length)
    else
      let special := if c = 'e' then none else Format.letter? c
      some (special.getD c, rest)
  | c :: rest => some (c, rest)

/-- A class, an equivalent or a repeated character at the start of a set. -/
def trBracket? (t : Octets) : Option (TrItem × Octets) :=
  match t with
  | '[' :: ':' :: rest =>
    match Text.className? [] rest with
    | some (name, rest) => some (.named name, rest)
    | none => none
  | '[' :: '=' :: c :: '=' :: ']' :: rest => some (.chars [c], rest)
  | '[' :: rest =>
    match trChar? rest with
    | some (c, '*' :: rest) =>
      let digits := rest.takeWhile Text.isDigit
      match rest.drop digits.length with
      | ']' :: rest =>
        let base := if digits.head? = some '0' then 8 else 10
        let n := Arithmetic.digitsValue base digits
        some (.fill c (if n = 0 then none else some n), rest)
      | _ => none
    | _ => none
  | _ => none

def trRange (low high : Char) : Octets :=
  (List.range (high.toNat + 1 - low.toNat)).map fun i => Char.ofNat (low.toNat + i)

/-- The items of a set. The first argument bounds their number. -/
def trItems : Nat → Octets → Except TrFailure (List TrItem)
  | 0, _ => .ok []
  | bound + 1, t =>
    match trBracket? t with
    | some (item, rest) => do
      match item with
      | .named name => if !Text.classNames.contains name then throw (.badClass name.toList)
      | _ => pure ()
      return item :: (← trItems bound rest)
    | none =>
      match trChar? t with
      | none => .ok []
      | some (low, '-' :: rest) =>
        match trChar? rest with
        | none => .ok [.chars [low, '-']]
        | some (high, rest) => do
          if high < low then throw (.reversed low high)
          return .chars (trRange low high) :: (← trItems bound rest)
      | some (c, rest) => do return .chars [c] :: (← trItems bound rest)

/-- All characters. -/
def everyChar : Octets := (List.range 256).map Char.ofNat

/-- The characters of some items; one that fills up does so to a length. -/
def trExpand (length : Nat) (items : List TrItem) : Octets :=
  let sized := fun item : TrItem => match item with
    | .chars cs => cs
    | .named name => everyChar.filter (Text.inClass name)
    | .fill c count => List.replicate (count.getD 0) c
  let known := (items.flatMap sized).length
  items.flatMap fun item =>
    match item with
    | .fill c none => List.replicate (length - known) c
    | item => sized item

/-- Drops characters that repeat the one before them. -/
def squeeze (isSqueezed : Char → Bool) (before : Option Char) : Octets → Octets
  | [] => []
  | c :: rest =>
    if before = some c && isSqueezed c then squeeze isSqueezed before rest
    else c :: squeeze isSqueezed (some c) rest

/-- The character that stands for another. -/
def translate (pairs : List (Char × Char)) (c : Char) : Char := (pairs.lookup c).getD c

def trTable : OptionTable :=
  .ofOrdered "AcCdst"
    [("complement", "c", .nothing), ("delete", "d", .nothing), ("squeeze-repeats", "s", .nothing),
      ("truncate-set1", "t", .nothing)]

/-- Complains of a set that cannot be read. -/
def trComplain : TrFailure → Act Unit
  | .reversed low high =>
    fail (text "range-endpoints of '" ++ [low, '-', high] ++
      text "' are in reverse collating sequence order")
  | .badClass name => fail (text "invalid character class " ++ Quote.always name)

/-- Whether a set is given where one has to be, and none where none may be. -/
def trCheck (given : Given) (operands : List Octets) : Act Bool := do
  let deletes := given.has "d"
  let squeezes := given.has "s"
  let least := if deletes == squeezes then 2 else 1
  let most := if deletes && !squeezes then 1 else 2
  match operands with
  | [] =>
    missingOperand
    return false
  | [first] =>
    if least = 1 then return true
    say (text "missing operand after " ++ Quote.always first)
    modify (·.report (text (if deletes then
      "Two strings must be given when both deleting and squeezing repeats.\n"
      else "Two strings must be given when translating.\n")))
    hint 1
    return false
  | _ =>
    if operands.length ≤ most then return true
    say (text "extra operand " ++ Quote.always ((operands.drop most).headD []))
    if operands.length = 2 then
      modify (·.report
        (text "Only one string may be given when deleting without squeezing repeats.\n"))
    hint 1
    return false

def tr (words : List Octets) : Act Unit :=
  withOptions trTable words fun given operands => do
    if !(← trCheck given operands) then return ()
    let first := operands.headD []
    let second := (operands.drop 1).headD []
    match trItems (first.length + 1) first, trItems (second.length + 1) second with
    | .error e, _ | _, .error e => trComplain e
    | .ok items, .ok others =>
      let complement := given.has "c" || given.has "C"
      let plain := trExpand 0 items
      let sought := if complement then everyChar.filter fun c => !plain.contains c else plain
      let wanted := trExpand sought.length others
      let isIn := fun c => plain.contains c != complement
      let input := (← contentOf ['-']).toOption.getD []
      let deletes := given.has "d"
      let squeezes := given.has "s"
      if deletes then
        let kept := input.filter fun c => !isIn c
        Act.put (if squeezes then squeeze wanted.contains none kept else kept)
      else if operands.length = 1 then Act.put (squeeze isIn none input)
      else if wanted = [] && !given.has "t" then
        fail (text "when not truncating set1, string2 must be non-empty")
      else
        let swaps := items.zip others |>.all fun (a, b) =>
          (a, b) = (.named "lower", .named "upper") || (a, b) = (.named "upper", .named "lower")
        let partners :=
          if swaps && items.length = others.length then sought.map fun c =>
            if Text.inClass "lower" c then c.toUpper else c.toLower
          else
            let last := wanted.getLast?.getD ' '
            if given.has "t" then wanted else wanted ++ List.replicate (sought.length - wanted.length) last
        let pairs := (sought.zip partners).reverse
        let swapped := input.map (translate pairs)
        Act.put (if squeezes then squeeze partners.contains none swapped else swapped)

/-- The column behind a character. -/
def columnAfter (bytes : Bool) (column : Nat) (c : Char) : Nat :=
  if bytes then column + 1
  else
    match c with
    | '\x08' => column - 1
    | '\r' => 0
    | '\t' => column + 8 - column % 8
    | _ => column + 1

/-- Where a line is broken that has become too long: behind its last blank. -/
def brokenAtBlank (line : Octets) : Octets × Octets :=
  let rest := (line.reverse.takeWhile fun c => c != ' ' && c != '\t').reverse
  if rest.length = line.length then (line, []) else (line.take (line.length - rest.length), rest)

/-- A line in pieces that are no wider than they may be. `current` is what has been read of a piece,
backwards. The first argument bounds the number of steps. -/
def foldLine (bytes blanks : Bool) (width : Nat) : Nat → Octets → Nat → Octets → List Octets
  | 0, current, _, rest => [current.reverse ++ rest]
  | _ + 1, current, _, [] => if current = [] then [] else [current.reverse]
  | bound + 1, current, column, c :: rest =>
    let next := columnAfter bytes column c
    if width < next && current ≠ [] then
      let (piece, kept) := if blanks then brokenAtBlank current.reverse else (current.reverse, [])
      let place := kept.foldl (columnAfter bytes) 0
      piece :: foldLine bytes blanks width bound kept.reverse place (c :: rest)
    else foldLine bytes blanks width bound (c :: current) next rest

def fold (words : List Octets) : Act Unit :=
  let words := words.map fun w => match w with
    | '-' :: c :: rest => if Text.isDigit c then '-' :: 'w' :: c :: rest else w
    | _ => w
  let table := OptionTable.of "bsw:"
    [("bytes", "b", .nothing), ("spaces", "s", .nothing), ("width", "w", .required)]
  withOptions table words fun given operands => do
    let word := (given.last? "w").getD ['8', '0']
    match decimal? word with
    | none => failOn "invalid number of columns: " word ""
    | some 0 => failOn "invalid number of columns: " word ": Numerical result out of range"
    | some width =>
      for path in orInput operands do
        let found := (← content? path).getD []
        let lines := (rawLines found).map fun line =>
          let closed := line.getLast? = some '\n'
          let body := if closed then line.dropLast else line
          let pieces := foldLine (given.has "b") (given.has "s") width (2 * body.length + 2) [] 0 body
          List.intercalate ['\n'] pieces ++ if closed then ['\n'] else []
        Act.put lines.flatten

/-- Replaces tabs by blanks. -/
def expandTabs (initial : Bool) (width : Nat) (line : Octets) : Octets :=
  let step := fun (s : Octets × Nat × Bool) (c : Char) =>
    let (shown, column, active) := s
    if c = '\t' && active then
      let next := column + width - column % width
      (List.replicate (next - column) ' ' ++ shown, next, active)
    else
      let column := if c = '\x08' then column - 1 else column + 1
      (c :: shown, column, active && (!initial || c == ' ' || c == '\t'))
  (line.foldl step ([], 0, true)).1.reverse

def expand (words : List Octets) : Act Unit :=
  let table := OptionTable.of "it:" [("initial", "i", .nothing), ("tabs", "t", .required)]
  withOptions table words fun given operands => do
    let word := (given.last? "t").getD ['8']
    match decimal? word with
    | none | some 0 => failOn "tab size contains invalid character(s): " word ""
    | some width =>
      let lines := rawLines (← contents operands)
      Act.put (lines.flatMap (expandTabs (given.has "i") width))

/-- Replaces blanks before a tab stop by tabs; all of them, or only those at the start of a line. -/
def packBlanks (everywhere : Bool) (width : Nat) (line : Octets) : Octets :=
  let flush := fun (start stop : Nat) =>
    let stops := stop / width - start / width
    if stops = 0 || stop - start ≤ 1 then List.replicate (stop - start) ' '
    else List.replicate stops '\t' ++ List.replicate (stop % width) ' '
  let step := fun (s : Octets × Nat × Nat × Bool) (c : Char) =>
    let (shown, begun, column, active) := s
    if active && c = ' ' then (shown, begun, column + 1, active)
    else if active && c = '\t' then (shown, begun, column + width - column % width, active)
    else
      let shown := (flush begun column).reverse ++ shown
      (c :: shown, column + 1, column + 1, active && everywhere)
  let (shown, begun, column, _) := line.foldl step ([], 0, 0, true)
  ((flush begun column).reverse ++ shown).reverse

def unexpand (words : List Octets) : Act Unit :=
  let table := OptionTable.of "at:" [("all", "a", .nothing), ("tabs", "t", .required)]
  withOptions table words fun given operands => do
    let width := ((given.last? "t").bind decimal?).getD 8
    let everywhere := given.has "a" || given.has "t"
    let lines := rawLines (← contents operands)
    Act.put (lines.flatMap (packBlanks everywhere width))

def tac (words : List Octets) : Act Unit :=
  let table := OptionTable.of "brs:"
    [("before", "b", .nothing), ("regex", "r", .nothing), ("separator", "s", .required)]
  withOptions table words fun _ operands => do
    for path in orInput operands do
      match ← contentOf path with
      | .error (.unopened e) => failOn "failed to open " path (" for reading: " ++ errorText e)
      | .error (.unreadable e) => fail (Quote.ifNeeded path ++ text (": read error: " ++ e.message))
      | .ok found => Act.put (rawLines found).reverse.flatten

def rev (words : List Octets) : Act Unit := do
  let paths := words.filter (· ≠ ['-', '-'])
  for path in orInput paths do
    match ← contentOf path with
    | .error e => fail (text "cannot open " ++ path ++ text (": " ++ e.reason))
    | .ok found =>
      Act.put ((rawLines found).flatMap fun line =>
        if line.getLast? = some '\n' then line.dropLast.reverse ++ ['\n'] else line.reverse)

end BitcodeReplay.Tool
