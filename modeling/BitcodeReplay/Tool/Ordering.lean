import BitcodeReplay.Numeric.Reading
import BitcodeReplay.Tool.Basic
import BitcodeReplay.Tool.Version

/-!
The tool that sorts lines. Lines are compared by keys, which are parts of them that are read as texts,
numbers, months or versions.
-/

namespace BitcodeReplay.Tool

open Shell

/-- How parts of lines are compared. -/
inductive Reading where
  | plain
  | number
  | general
  | human
  | month
  | version
  deriving DecidableEq, Repr

/-- How a key is compared: what it is read as, which characters count, and in which direction. -/
structure Comparing where
  letters : Octets
  deriving DecidableEq, Repr

namespace Comparing

def has (c : Comparing) (letter : Char) : Bool := c.letters.contains letter

def reading (c : Comparing) : Reading :=
  if c.has 'n' then .number
  else if c.has 'g' then .general
  else if c.has 'h' then .human
  else if c.has 'M' then .month
  else if c.has 'V' then .version
  else .plain

/-- The letters that cannot stand together, if there are such. -/
def clash? (c : Comparing) : Option Octets :=
  let kinds := ['g', 'h', 'M', 'n'].filter c.has
  let others := if c.has 'V' || c.has 'R' || c.has 'd' || c.has 'i' then 1 else 0
  if kinds.length + others > 1 then
    some (['d', 'f', 'g', 'h', 'i', 'M', 'n', 'R', 'V'].filter c.has)
  else none

end Comparing

/-- A part of a line: from a character of a field to one of another, each with how blanks in front of
it count. -/
structure Key where
  startField : Nat
  startChar : Nat
  startBlanks : Bool
  stop : Option (Nat × Nat)
  stopBlanks : Bool
  comparing : Comparing
  deriving DecidableEq, Repr

/-- A number in decimal digits, without what it does not need. -/
structure DecimalText where
  negative : Bool
  whole : Octets
  fraction : Octets
  rest : Octets
  deriving DecidableEq, Repr

def DecimalText.read (t : Octets) : DecimalText :=
  let t := t.dropWhile fun c => c == ' ' || c == '\t'
  let negative := t.head? = some '-'
  let body := if negative then t.drop 1 else t
  let whole := body.takeWhile Text.isDigit
  let rest := body.drop whole.length
  let fraction := match rest with
    | '.' :: more => more.takeWhile Text.isDigit
    | _ => []
  let rest := match rest with
    | '.' :: more => more.drop fraction.length
    | _ => rest
  ⟨negative, whole.dropWhile (· == '0'),
    (fraction.reverse.dropWhile (· == '0')).reverse, rest⟩

def DecimalText.isZero (d : DecimalText) : Bool := d.whole = [] && d.fraction = []

def DecimalText.compareSizes (a b : DecimalText) : Ordering :=
  (compareNat a.whole.length b.whole.length).then
    ((compareOctets a.whole b.whole).then (compareOctets a.fraction b.fraction))

def DecimalText.compare (a b : DecimalText) : Ordering :=
  let isNegative := fun d : DecimalText => d.negative && !d.isZero
  match isNegative a, isNegative b with
  | false, false => a.compareSizes b
  | true, true => b.compareSizes a
  | true, false => .lt
  | false, true => .gt

/-- How high the unit behind a number is. -/
def unitRank (d : DecimalText) : Int :=
  let rank := match d.rest with
    | c :: _ => ("KMGTPEZY".toList.idxOf? (if c = 'k' then 'K' else c)).elim 0 (· + 1)
    | [] => 0
  if d.isZero then 0 else if d.negative then -rank else rank

/-- Where a text stands among numbers: what is no number comes first. -/
def generalRank (t : Octets) : Int × Int × Nat :=
  match Numeric.Reading.number? t with
  | none => (0, 0, 1)
  | some (⟨_, .undefined⟩, _) => (1, 0, 1)
  | some (⟨negative, .infinite⟩, _) => (if negative then 2 else 4, 0, 1)
  | some (⟨negative, n⟩, _) =>
    match n.ratio? with
    | some (num, den) => (3, if negative then -(num : Int) else num, den)
    | none => (1, 0, 1)

def compareGeneral (a b : Octets) : Ordering :=
  let (r, m, d) := generalRank a
  let (q, n, e) := generalRank b
  (compareInt r q).then (compareInt (m * e) (n * d))

def monthRank (t : Octets) : Nat :=
  let t := ((t.dropWhile fun c => c == ' ' || c == '\t').take 3).map Char.toUpper
  (["JAN", "FEB", "MAR", "APR", "MAY", "JUN", "JUL", "AUG", "SEP", "OCT", "NOV", "DEC"].idxOf?
    (String.ofList t)).elim 0 (· + 1)

/-- What counts of a text that is compared as such. -/
def Comparing.view (c : Comparing) (t : Octets) : Octets :=
  let t := if c.has 'd' then
      t.filter fun x => Text.isLetter x || Text.isDigit x || x == ' ' || x == '\t'
    else if c.has 'i' then t.filter (Text.inClass "print")
    else t
  if c.has 'f' then t.map Char.toUpper else t

def Comparing.compare (c : Comparing) (a b : Octets) : Ordering :=
  let order := match c.reading with
    | .plain => compareOctets (c.view a) (c.view b)
    | .number => (DecimalText.read a).compare (DecimalText.read b)
    | .general => compareGeneral a b
    | .human =>
      let m := DecimalText.read a
      let n := DecimalText.read b
      (compareInt (unitRank m) (unitRank n)).then (m.compare n)
    | .month => compareNat (monthRank a) (monthRank b)
    | .version =>
      (compareVersions (a.length + b.length + 1) a b).then (compareOctets a b)
  if c.has 'r' then order.swap else order

def isGap (c : Char) : Bool := c == ' ' || c == '\t' || c == '\n'

/-- What is left of a line behind some fields. Behind the last, the separator stays if `keeps`. -/
def dropFields (separator : Option Char) (keeps : Bool) : Nat → Octets → Octets
  | 0, t => t
  | n + 1, t =>
    match separator with
    | none => dropFields separator keeps n ((t.dropWhile isGap).dropWhile fun c => !isGap c)
    | some c =>
      let rest := t.dropWhile (· != c)
      dropFields separator keeps n (if n = 0 && keeps then rest else rest.drop 1)

/-- The part of a line that a key takes. -/
def Key.of (k : Key) (separator : Option Char) (line : Octets) : Octets :=
  let start := dropFields separator false (k.startField - 1) line
  let start := if k.startBlanks then start.dropWhile isGap else start
  let start := start.drop (k.startChar - 1)
  match k.stop with
  | none => start
  | some (field, char) =>
    let rest :=
      if char = 0 then dropFields separator true field line
      else
        let there := dropFields separator false (field - 1) line
        let there := if k.stopBlanks then there.dropWhile isGap else there
        there.drop char
    start.take (start.length - rest.length)

/-- How lines are sorted. -/
structure Sorting where
  keys : List Key
  separator : Option Char
  reversed : Bool
  stable : Bool
  unique : Bool

/-- Compares two lines by all keys, without the last resort. -/
def Sorting.compareKeys (o : Sorting) (a b : Octets) : Ordering :=
  o.keys.foldl (fun known k =>
    match known with
    | .eq => k.comparing.compare (k.of o.separator a) (k.of o.separator b)
    | other => other) .eq

def Sorting.compare (o : Sorting) (a b : Octets) : Ordering :=
  let byKeys := if o.keys = [] then Ordering.eq else o.compareKeys a b
  let last := if o.reversed then compareOctets b a else compareOctets a b
  if o.keys ≠ [] && (o.stable || o.unique) then byKeys else byKeys.then last

/-- Drops lines that are equal to the one before them. -/
def Sorting.dropRepeats (o : Sorting) : List Octets → List Octets
  | [] => []
  | line :: rest =>
    line :: (o.dropRepeats rest).dropWhile fun next => o.compare line next == .eq

def Sorting.sort (o : Sorting) (lines : List Octets) : List Octets :=
  let sorted := lines.mergeSort fun a b => o.compare a b != .gt
  if o.unique then
    (sorted.foldl (fun kept line =>
      match kept with
      | last :: _ => if o.compare last line = .eq then kept else line :: kept
      | [] => [line]) []).reverse
  else sorted

/-- Takes lines in turn from texts that are sorted. The first argument bounds their number. -/
def Sorting.merge (o : Sorting) : Nat → List (List Octets) → List Octets
  | 0, _ => []
  | bound + 1, texts =>
    let heads := texts.zipIdx.filterMap fun (lines, i) => lines.head?.map fun line => (line, i)
    match heads with
    | [] => []
    | first :: others =>
      let (line, i) := others.foldl (fun best next =>
        if o.compare next.1 best.1 = .lt then next else best) first
      line :: o.merge bound (texts.zipIdx.map fun (lines, j) => if i = j then lines.drop 1 else lines)

/-- Why a key cannot be read. -/
inductive KeyFailure where
  | count (place : String) (rest : Octets)
  | zeroField
  | zeroChar
  | stray
  deriving DecidableEq, Repr

def KeyFailure.message (spec : Octets) : KeyFailure → Octets
  | .count place rest =>
    text ("invalid number " ++ place ++ ": invalid count at start of ") ++ Quote.always rest
  | .zeroField => text "field number is zero: invalid field specification " ++ Quote.always spec
  | .zeroChar => text "character offset is zero: invalid field specification " ++ Quote.always spec
  | .stray => text "stray character in field spec: invalid field specification " ++ Quote.always spec

def keyLetters : Octets := ['b', 'd', 'f', 'g', 'h', 'i', 'M', 'n', 'R', 'r', 'V']

/-- A number at the start of a text, and what follows it. -/
def leadingCount (place : String) (t : Octets) : Except KeyFailure (Nat × Octets) :=
  let digits := t.takeWhile Text.isDigit
  if digits = [] then .error (.count place t)
  else .ok (Arithmetic.digitsValue 10 digits, t.drop digits.length)

/-- Reads a key. One without letters of its own is compared like lines as a whole. -/
def Key.read (whole : Comparing) (spec : Octets) : Except KeyFailure Key := do
  let (field, rest) ← leadingCount "at field start" spec
  if field = 0 then throw .zeroField
  let (char, rest) ← match rest with
    | '.' :: more => leadingCount "after '.'" more
    | _ => pure (1, rest)
  if char = 0 then throw .zeroChar
  let letters := rest.takeWhile keyLetters.contains
  let rest := rest.drop letters.length
  let (stop, others, rest) ← match rest with
    | ',' :: more => do
      let (last, more) ← leadingCount "after ','" more
      if last = 0 then throw .zeroField
      let (char, more) ← match more with
        | '.' :: digits => leadingCount "after '.'" digits
        | _ => pure (0, more)
      let others := more.takeWhile keyLetters.contains
      pure (some (last, char), others, more.drop others.length)
    | _ => pure (none, [], rest)
  if rest ≠ [] then throw .stray
  let own := letters ++ others
  if own = [] then
    return ⟨field, char, whole.has 'b', stop, whole.has 'b', whole⟩
  else
    return ⟨field, char, letters.contains 'b', stop, others.contains 'b', ⟨own⟩⟩

/-- The character that stands between fields. -/
def separatorOf (word : Octets) : Except Octets Char :=
  match word with
  | [] => .error (text "empty tab")
  | ['\\', '0'] => .ok '\x00'
  | [c] => .ok c
  | _ => .error (text "multi-character tab " ++ Quote.always word)

/-- The lines of an input of `sort`; nothing after a complaint. -/
def sortInput (ending : Char) (path : Octets) : Act (Option (List Octets)) := do
  match ← contentOf path with
  | .error (.unopened e) =>
    failWith 2 (text "cannot read: " ++ Quote.ifNeeded path ++ text (": " ++ errorText e))
    return none
  | .error (.unreadable e) =>
    failWith 2 (text "read failed: " ++ Quote.ifNeeded path ++ text (": " ++ e.message))
    return none
  | .ok found =>
    let lines := found.splitOn ending
    return some (if lines.getLast? = some [] then lines.dropLast else lines)

/-- The first line that stands in the wrong place, and its number. -/
def Sorting.disorder? (o : Sorting) : Nat → List Octets → Option (Nat × Octets)
  | n, a :: b :: rest =>
    let order := o.compare a b
    if order = .gt || (o.unique && order = .eq) then some (n + 1, b) else disorder? o (n + 1) (b :: rest)
  | _, _ => none

def sortTable : OptionTable :=
  .of "bcCdfghik:mMno:RrsS:t:T:uVyz"
    [("ignore-leading-blanks", "b", .nothing), ("check", "check", .optional),
      ("dictionary-order", "d", .nothing), ("ignore-case", "f", .nothing),
      ("general-numeric-sort", "g", .nothing), ("ignore-nonprinting", "i", .nothing),
      ("key", "k", .required), ("merge", "m", .nothing), ("month-sort", "M", .nothing),
      ("numeric-sort", "n", .nothing), ("human-numeric-sort", "h", .nothing),
      ("version-sort", "V", .nothing), ("random-sort", "R", .nothing), ("output", "o", .required),
      ("reverse", "r", .nothing), ("stable", "s", .nothing), ("field-separator", "t", .required),
      ("unique", "u", .nothing), ("zero-terminated", "z", .nothing),
      ("parallel", "parallel", .required), ("buffer-size", "S", .required),
      ("temporary-directory", "T", .required), ("sort", "sort", .required)]

/-- The letters that the name of an order stands for. -/
def orderLetters (word : Octets) : Octets :=
  match word.toText with
  | "general-numeric" => ['g']
  | "human-numeric" => ['h']
  | "month" => ['M']
  | "numeric" => ['n']
  | "random" => ['R']
  | "version" => ['V']
  | _ => []

/-- Writes sorted lines, or tells where they are not sorted. -/
def putSorted (o : Sorting) (given : Given) (operands : List Octets) : Act Unit := do
  let ending := if given.has "z" then '\x00' else '\n'
  let quiet := given.has "C" || ["quiet", "silent"].contains ((given.last? "check").getD []).toText
  let checks := given.has "c" || given.has "C" || given.has "check"
  let paths := orInput operands
  match checks, paths with
  | true, _ :: extra :: _ =>
    failWith 2 (text "extra operand " ++ Quote.always extra ++
      text (if quiet then " not allowed with -C" else " not allowed with -c"))
  | true, _ =>
    let path := paths.headD []
    match ← sortInput ending path with
    | none => pure ()
    | some lines =>
      match o.disorder? 1 lines with
      | none => pure ()
      | some (n, line) =>
        if quiet then Act.setStatus 1
        else fail (path ++ ':' :: Octets.ofNat n ++ text ": disorder: " ++ line)
  | false, _ =>
    let mut texts := #[]
    for path in paths do
      match ← sortInput ending path with
      | none => return ()
      | some lines => texts := texts.push lines
    let all := texts.toList.flatten
    let sorted := if given.has "m" then
        let merged := o.merge (all.length + 1) texts.toList
        if o.unique then o.dropRepeats merged else merged
      else o.sort all
    let written := sorted.flatMap (· ++ [ending])
    match given.last? "o" with
    | none => Act.put written
    | some path =>
      let s ← get
      match s.openPath path .write with
      | .error e =>
        failWith 2 (text "open failed: " ++ Quote.ifNeeded path ++ text (": " ++ errorText e))
      | .ok (s, stream) =>
        match s.toWorld.write stream written with
        | .ok w => set { s with toWorld := w }
        | .error e =>
          set s
          failWith 2 (text "write failed: " ++ Quote.ifNeeded path ++ text (": " ++ e.message))

def sort (words : List Octets) : Act Unit :=
  withOptionsOr 2 sortTable words fun given operands => do
    let letters := (given.filter fun p => p.1.length == 1 && keyLetters.contains (p.1.toList.headD ' ')).map
      fun p => p.1.toList.headD ' '
    let whole : Comparing := ⟨letters ++ (given.all "sort").flatMap orderLetters⟩
    let specs := given.all "k"
    let read := specs.map fun spec => (spec, Key.read whole spec)
    let wrong := read.findSome? fun (spec, k) =>
      match k with
      | .error e => some (e.message spec)
      | .ok _ => none
    let separator := (given.last? "t").map separatorOf
    let keys := read.filterMap fun (_, k) => k.toOption
    let onlyReversed := whole.letters.all fun c => c == 'r' || c == 'R'
    let keys := if specs = [] && !onlyReversed then
        [⟨1, 1, whole.has 'b', none, false, whole⟩]
      else keys
    match wrong, separator, (whole :: keys.map (·.comparing)).findSome? Comparing.clash? with
    | some message, _, _ => failWith 2 message
    | none, some (.error message), _ => failWith 2 message
    | none, _, some letters =>
      failWith 2 (text "options '-" ++ letters ++ text "' are incompatible")
    | none, separator, none =>
      let o : Sorting :=
        ⟨keys, separator.bind Except.toOption, whole.has 'r', given.has "s", given.has "u"⟩
      putSorted o given operands

end BitcodeReplay.Tool
