import BitcodeReplay.Shell.Format
import BitcodeReplay.Text.RegexSyntax
import BitcodeReplay.Tool.Basic

/-!
The tools that count: the parts of a text, its lines, and up to a number.
-/

namespace BitcodeReplay.Tool

open Shell

/-- How much of each kind a text holds. -/
structure Counts where
  lines : Nat
  words : Nat
  chars : Nat
  bytes : Nat
  longest : Nat
  deriving DecidableEq, Repr

namespace Counts

def zero : Counts := ⟨0, 0, 0, 0, 0⟩

def add (a b : Counts) : Counts :=
  ⟨a.lines + b.lines, a.words + b.words, a.chars + b.chars, a.bytes + b.bytes,
    max a.longest b.longest⟩

/-- The place on a line behind some characters. -/
def columns (line : Octets) : Nat :=
  line.foldl (fun n c =>
    if c = '\t' then n + 8 - n % 8 else if Text.inClass "print" c then n + 1 else n) 0

def ofText (t : Octets) : Counts :=
  let words := (t.splitOnP fun c => Text.inClass "space" c).filter fun w =>
    w.any (Text.inClass "graph")
  let lines := t.splitOnP fun c => c == '\n' || c == '\r' || c == '\x0c'
  ⟨t.count '\n', words.length, t.length, t.length,
    lines.foldl (fun n line => max n (columns line)) 0⟩

/-- The counts that some options ask for, in the order in which they are shown. -/
def select (given : Given) (c : Counts) : List Nat :=
  let chosen := given.filter fun p => ["l", "w", "m", "c", "L"].contains p.1
  let has := fun key => if chosen = [] then ["l", "w", "c"].contains key else Given.has chosen key
  (if has "l" then [c.lines] else []) ++ (if has "w" then [c.words] else []) ++
    (if has "m" then [c.chars] else []) ++ (if has "c" then [c.bytes] else []) ++
    if has "L" then [c.longest] else []

end Counts

/-- The size of the file that an operand leads to; nothing if it leads to something else. -/
inductive Measure where
  | file (size : Nat)
  | other
  | missing
  deriving DecidableEq, Repr

def measure (s : Session) (path : Octets) : Measure :=
  if path = ['-'] then
    match (s.channels.lookup 0).bind fun n => s.streams[n]? with
    | some stream =>
      match stream.device with
      | .file loc =>
        match s.tree.get? loc with
        | some (.file bytes _) => .file bytes.size
        | _ => .other
      | _ => .other
    | none => .missing
  else
    match s.entryAt true path with
    | some (_, .file bytes _) => .file bytes.size
    | some _ => .other
    | none => .missing

/-- How wide counts are written: as wide as the sizes of the files together. -/
def countWidth (measures : List Measure) : Nat :=
  match measures with
  | .missing :: _ => 1
  | _ =>
    let sizes := measures.map fun m => match m with
      | .file size => size
      | _ => 0
    let width := (Octets.ofNat (sizes.foldl (· + ·) 0)).length
    if measures.contains .other then max 7 width else width

def wc (words : List Octets) : Act Unit :=
  let table := OptionTable.of "clmwL"
    [("bytes", "c", .nothing), ("chars", "m", .nothing), ("lines", "l", .nothing),
      ("words", "w", .nothing), ("max-line-length", "L", .nothing)]
  withOptions table words fun given operands => do
    let paths := orInput operands
    let single := paths.length = 1 && (Counts.zero.select given).length = 1
    let s ← get
    let width := if single then 1 else countWidth (paths.map (measure s))
    let row := fun (c : Counts) (name : Octets) =>
      let numbers := (c.select given).map fun n => rightAligned width (.ofNat n)
      Act.putLine (List.intercalate [' '] numbers ++ if name = [] then [] else ' ' :: name)
    let mut total := Counts.zero
    for path in paths do
      let name := if operands = [] then [] else path
      match ← openInput path with
      | .error e => fail (Quote.ifNeeded path ++ text (": " ++ e.reason))
      | .ok stream =>
        match ← takeAll stream with
        | .error e =>
          fail (Quote.ifNeeded path ++ text (": " ++ e.reason))
          row Counts.zero name
        | .ok found =>
          let counts := Counts.ofText found
          total := total.add counts
          row counts name
    if paths.length > 1 then row total (text "total")

/-- How lines are numbered. -/
structure Numbering where
  isNumbered : Octets → Bool
  width : Nat
  separator : Octets
  format : String
  first : Int
  step : Int

/-- Which lines a style numbers. -/
def styleOf (style : Octets) : Option (Octets → Bool) :=
  match style with
  | ['a'] => some fun _ => true
  | ['t'] => some fun line => line ≠ []
  | ['n'] => some fun _ => false
  | 'p' :: pattern =>
    match Text.Regex.read ⟨false, false⟩ pattern with
    | .ok r => some fun line => (r.find? ⟨false, false⟩ line.toArray 0).isSome
    | .error _ => none
  | _ => none

def Numbering.label (n : Numbering) (number : Int) : Octets :=
  let digits := Octets.ofNat number.natAbs
  let sign := if number < 0 then ['-'] else []
  match n.format with
  | "ln" => leftAligned n.width (sign ++ digits)
  | "rz" => sign ++ List.replicate (n.width - sign.length - digits.length) '0' ++ digits
  | _ => rightAligned n.width (sign ++ digits)

/-- Lines with numbers. A line of two or more section marks starts the numbers again. -/
def Numbering.lines (n : Numbering) (number : Int) : List Octets → List Octets
  | [] => []
  | line :: rest =>
    if line = text "\\:\\:\\:" || line = text "\\:\\:" || line = text "\\:" then
      [] :: n.lines n.first rest
    else if n.isNumbered line then
      (n.label number ++ n.separator ++ line) :: n.lines (number + n.step) rest
    else (List.replicate (n.width + n.separator.length) ' ' ++ line) :: n.lines number rest

def nl (words : List Octets) : Act Unit :=
  let table := OptionTable.of "b:d:f:h:i:l:n:ps:v:w:"
    [("body-numbering", "b", .required), ("line-increment", "i", .required),
      ("number-format", "n", .required), ("number-separator", "s", .required),
      ("starting-line-number", "v", .required), ("number-width", "w", .required)]
  withOptions table words fun given operands => do
    let number := fun key (default : Int) =>
      ((given.last? key).bind Arithmetic.decimalValue?).getD default
    match styleOf ((given.last? "b").getD ['t']) with
    | none => misused 1 (text "invalid body numbering style: " ++ Quote.always ((given.last? "b").getD []))
    | some isNumbered =>
      let n : Numbering :=
        ⟨isNumbered, (number "w" 6).toNat, (given.last? "s").getD ['\t'],
          ((given.last? "n").getD ['r', 'n']).toText, number "v" 1, number "i" 1⟩
      putLines (n.lines n.first (← contents operands).lines)

/-- A number with its decimal places. -/
structure Decimal where
  scaled : Int
  places : Nat
  width : Nat
  deriving DecidableEq, Repr

/-- A number as `seq` takes it. An exponent moves the point. -/
def Decimal.read? (word : Octets) : Option Decimal :=
  let negative := word.head? = some '-'
  let body := if negative || word.head? = some '+' then word.drop 1 else word
  let whole := body.takeWhile Text.isDigit
  let rest := body.drop whole.length
  let fraction := match rest with
    | '.' :: more => more.takeWhile Text.isDigit
    | _ => []
  let rest := match rest with
    | '.' :: more => more.drop fraction.length
    | _ => rest
  let power? : Option Int := match rest with
    | [] => some 0
    | e :: more => if e = 'e' || e = 'E' then Arithmetic.decimalValue? more else none
  if whole = [] && fraction = [] then none
  else
    power?.map fun power =>
      let digits : Int := Arithmetic.digitsValue 10 (whole ++ fraction)
      let places : Int := fraction.length - power
      let value := if negative then -digits else digits
      let width := if word.head? = some '+' then word.length - 1 else word.length
      if 0 ≤ places then ⟨value, places.toNat, width⟩
      else ⟨value * Nat.pow 10 (-places).toNat, 0, width⟩

/-- A number with some decimal places, filled up with zeros to a width. -/
def Decimal.write (value : Int) (places width : Nat) : Octets :=
  let digits := Octets.ofNat value.natAbs
  let digits := List.replicate (places + 1 - digits.length) '0' ++ digits
  let whole := digits.take (digits.length - places)
  let fraction := digits.drop (digits.length - places)
  let body := if places = 0 then whole else whole ++ '.' :: fraction
  let sign := if value < 0 then ['-'] else []
  sign ++ List.replicate (width - sign.length - body.length) '0' ++ body

/-- Whether a word of `seq` is a number, though it may start with a sign. -/
def looksNumeric : Octets → Bool
  | '-' :: c :: _ => Text.isDigit c || c = '.'
  | c :: _ => c != '-'
  | [] => true

/-- The words of `seq` before its first number, and those from there on. -/
def beforeNumbers : List Octets → List Octets × List Octets
  | [] => ([], [])
  | word :: rest =>
    if looksNumeric word then ([], word :: rest)
    else
      match rest with
      | [] => ([word], [])
      | argument :: others =>
        if word = ['-', 's'] || word = ['-', 'f'] then
          let (options, numbers) := beforeNumbers others
          (word :: argument :: options, numbers)
        else
          let (options, numbers) := beforeNumbers (argument :: others)
          (word :: options, numbers)

/-- The numbers from a first one to a last. -/
def countUp (first step last : Int) : List Int :=
  let count := if 0 < step then (last - first) / step + 1 else (first - last) / (-step) + 1
  (List.range count.toNat).map fun (i : Nat) => first + step * i

/-- Writes the numbers between some that have been read. -/
def putNumbers (given : Given) (first step last : Decimal) : Act Unit := do
  let places := max first.places step.places
  let scale := fun (d : Decimal) (places : Nat) => d.scaled * Nat.pow 10 (places - d.places)
  let fine := max places last.places
  let up := fun d => scale d fine
  let numbers := countUp (up first) (up step) (up last)
  let point := fun (n : Nat) (has gets : Bool) => if gets && !has then n + 1 else n
  let firstWidth := point (first.width + (places - first.places)) (first.places != 0) (places != 0)
  let lastWidth := (last.width + places) - last.places
  let lastWidth := if last.places != 0 && places = 0 then lastWidth - 1
    else point lastWidth (last.places != 0) (places != 0)
  let width := if given.has "w" then max firstWidth lastWidth else 0
  let written := numbers.map fun n =>
    let exact := Decimal.write n fine 0
    match given.last? "f" with
    | some format => (Format.printf .program format [exact]).1
    | none => Decimal.write (n / Nat.pow 10 (fine - places)) places width
  let separator := (given.last? "s").getD ['\n']
  if written ≠ [] then Act.put (List.intercalate separator written ++ ['\n'])

def seq (words : List Octets) : Act Unit :=
  let table := OptionTable.of "f:s:w"
    [("format", "f", .required), ("separator", "s", .required), ("equal-width", "w", .nothing)]
  let (options, rest) := beforeNumbers words
  withOptions table options fun given _ => do
    let one : Decimal := ⟨1, 0, 1⟩
    let invalid := rest.find? fun w => (Decimal.read? w).isNone
    match rest, rest.mapM Decimal.read? with
    | [], _ => missingOperand
    | _ :: _ :: _ :: extra :: _, _ => extraOperand extra
    | _, none =>
      misused 1 (text "invalid floating point argument: " ++ Quote.always (invalid.getD []))
    | _, some [last] => putNumbers given one one last
    | _, some [first, last] => putNumbers given first one last
    | _, some (first :: step :: last :: _) =>
      if step.scaled = 0 then
        misused 1 (text "invalid Zero increment value: " ++ Quote.always ((rest.drop 1).headD []))
      else putNumbers given first step last
    | _, some [] => missingOperand

end BitcodeReplay.Tool
