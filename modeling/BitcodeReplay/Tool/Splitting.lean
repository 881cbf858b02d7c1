import BitcodeReplay.Tool.Basic

/-!
The tool that writes the parts of a file into files of their own, under names that count up.
-/

namespace BitcodeReplay.Tool

open Shell

namespace Splitting

/-- Which of some chunks are wanted: all, or one of them. -/
structure Chunks where
  only : Option Nat
  count : Nat
  deriving DecidableEq, Repr

/-- Where a text is split. -/
inductive Method where
  | lines (count : Nat)
  | bytes (count : Nat)
  | linesWithin (bytes : Nat)
  | chunks (c : Chunks)
  | lineChunks (c : Chunks)
  | turns (c : Chunks)
  deriving DecidableEq, Repr

/-- A text in pieces of one length. The first argument bounds them. -/
def pieces (size : Nat) : Nat → List α → List (List α)
  | 0, _ => []
  | bound + 1, t =>
    if t.isEmpty then [] else t.take size :: pieces size bound (t.drop size)

/-- Lines with their ends. -/
def endedLines (ending : Char) (t : Octets) : List Octets :=
  let parts := t.splitOn ending
  (parts.dropLast.map (· ++ [ending])) ++ (parts.getLast?.toList.filter (· ≠ []))

/-- Lines put together as long as they fit into a size; a line that is longer is cut. -/
def packed (size : Nat) (lines : List Octets) : List Octets :=
  let (done, last) := lines.foldl
    (fun (done, last) line =>
      if last.length + line.length ≤ size then (done, last ++ line)
      else
        let done := if last = [] then done else last :: done
        let parts := (pieces size (line.length + 1) line).reverse
        (parts.drop 1 ++ done, parts.headD []))
    (([] : List Octets), ([] : Octets))
  (if last = [] then done else last :: done).reverse

/-- How many bytes from a place on belong to a chunk of lines that ends at the first line end from
another place on. -/
def lineChunkLength (ending : Char) (position lastByte : Nat) (rest : Octets) : Nat :=
  if lastByte < position then 0
  else
    let skipped := lastByte - position
    let tail := (rest.drop skipped).takeWhile (· != ending)
    min rest.length (skipped + tail.length + 1)

/-- The chunks of a text into which whole lines go; `left` of them are still to come. -/
def inLineChunks (ending : Char) (count size : Nat) : Nat → Nat → Octets → List Octets
  | 0, _, _ => []
  | left + 1, position, rest =>
    let lastByte := if left = 0 then position + rest.length - 1 else (count - left) * size - 1
    let n := lineChunkLength ending position lastByte rest
    rest.take n :: inLineChunks ending count size left (position + n) (rest.drop n)

/-- The parts of a text. -/
def Method.parts (m : Method) (ending : Char) (t : Octets) : List Octets :=
  match m with
  | .lines n => (pieces n (t.length + 1) (endedLines ending t)).map List.flatten
  | .bytes n => pieces n (t.length + 1) t
  | .linesWithin n => packed n (endedLines ending t)
  | .chunks c =>
    let size := max t.length c.count / c.count
    (List.range c.count).map fun i =>
      if i + 1 = c.count then t.drop (i * size) else (t.drop (i * size)).take size
  | .lineChunks c => inLineChunks ending c.count (max t.length c.count / c.count) c.count 0 t
  | .turns c =>
    let lines := (endedLines ending t).zipIdx
    (List.range c.count).map fun i =>
      (lines.filter fun p => p.2 % c.count = i).flatMap (·.1)

def Method.chunks? : Method → Option Chunks
  | .chunks c | .lineChunks c | .turns c => some c
  | _ => none

/-- How parts are named. With no `width`, names grow longer when they run out. -/
structure Naming where
  start : Octets
  alphabet : List Char
  width : Option Nat
  first : Nat
  ending : Octets
  deriving DecidableEq, Repr

/-- A number in the letters of an alphabet, so many of them. -/
def lettersOf (alphabet : List Char) : Nat → Nat → Octets
  | 0, _ => []
  | width + 1, n =>
    lettersOf alphabet width (n / alphabet.length) ++
      (alphabet[n % alphabet.length]?).toList

/-- The letters of a number where the first letter of each width that is not the last letter tells how
many follow. The first argument bounds the widths. -/
def growing (alphabet : List Char) : Nat → Nat → Nat → Octets
  | 0, _, _ => []
  | bound + 1, width, n =>
    let base := alphabet.length
    let room := (base - 1) * Nat.pow base (width - 1)
    if n < room then lettersOf alphabet width n
    else alphabet.getLast?.toList ++ growing alphabet bound (width + 1) (n - room)

/-- The name of a part, if there is one left. -/
def Naming.name? (m : Naming) (i : Nat) : Option Octets :=
  match m.width with
  | none => some (m.start ++ growing m.alphabet 20 2 i ++ m.ending)
  | some width =>
    if m.first + i < Nat.pow m.alphabet.length width then
      some (m.start ++ lettersOf m.alphabet width (m.first + i) ++ m.ending)
    else none

/-- How many letters are needed for some numbers, at least two. The first argument bounds them. -/
def widthFor (alphabet : List Char) (count : Nat) : Nat → Nat → Nat
  | 0, width => width
  | bound + 1, width =>
    if count ≤ Nat.pow alphabet.length width then width
    else widthFor alphabet count bound (width + 1)

def table : OptionTable :=
  .of "a:b:C:del:n:t:ux"
    [("suffix-length", "a", .required), ("bytes", "b", .required), ("line-bytes", "C", .required),
      ("numeric-suffixes", "d", .optional), ("hex-suffixes", "x", .optional),
      ("elide-empty-files", "e", .nothing), ("lines", "l", .required), ("number", "n", .required),
      ("separator", "t", .required), ("unbuffered", "u", .nothing),
      ("additional-suffix", "additional-suffix", .required), ("verbose", "verbose", .nothing)]

/-- Words of an old form, in which digits alone stand for a number of lines. -/
def lineWords (words : List Octets) : List Octets :=
  words.map fun w =>
    match w with
    | '-' :: c :: rest => if (c :: rest).all Text.isDigit then '-' :: 'l' :: c :: rest else w
    | _ => w

/-- The chunks that a word asks for. -/
def chunkMethod? (word : Octets) : Except Octets Method :=
  let (make, rest) : (Chunks → Method) × Octets :=
    match word with
    | 'l' :: '/' :: rest => (.lineChunks, rest)
    | 'r' :: '/' :: rest => (.turns, rest)
    | rest => (.chunks, rest)
  let wrong := fun part => text "invalid number of chunks: " ++ Quote.always part
  let positive := fun part => (count? part).filter (0 < ·)
  match rest.splitOn '/' with
  | [n] => (positive n).elim (.error (wrong n)) fun n => .ok (make ⟨none, n⟩)
  | [k, n] =>
    match positive n with
    | none => .error (wrong n)
    | some count =>
      match (positive k).filter (· ≤ count) with
      | some k => .ok (make ⟨some k, count⟩)
      | none => .error (text "invalid chunk number: " ++ Quote.always k)
  | _ => .error (wrong rest)

/-- The methods that options ask for. -/
def methods (given : Given) : Except Octets (List Method) :=
  let number := fun (what : String) (word : Octets) (make : Nat → Method) =>
    match (count? word).filter (0 < ·) with
    | some n => Except.ok [make n]
    | none => Except.error (text ("invalid number of " ++ what ++ ": ") ++ Quote.always word)
  List.flatten <$> given.mapM fun (key, word) =>
    match key with
    | "l" => number "lines" word .lines
    | "b" => number "bytes" word .bytes
    | "C" => number "lines" word .linesWithin
    | "n" => (chunkMethod? word).map ([·])
    | _ => .ok []

/-- How the parts of a method are named. -/
def namingOf (given : Given) (m : Method) (start : Octets) : Except Octets Naming :=
  let alphabet := match given.lastOf? ["d", "x"] with
    | some "d" => "0123456789".toList
    | some _ => "0123456789abcdef".toList
    | none => "abcdefghijklmnopqrstuvwxyz".toList
  let first := (given.lastOf? ["d", "x"]).bind given.last? |>.getD []
  let ending := (given.last? "additional-suffix").getD []
  let wanted := given.last? "a"
  match wanted.map decimal?, decimal? first with
  | some none, _ => .error (text "invalid suffix length: " ++ Quote.always (wanted.getD []))
  | width, from? =>
    let counted := m.chunks?.map fun c => widthFor alphabet (c.count + from?.getD 0) 20 2
    let fixed := if first = [] then none else some 2
    .ok ⟨start, alphabet, ((width.getD none).filter (0 < ·)) <|> counted <|> fixed, from?.getD 0,
      ending⟩

/-- Writes parts into files. The first argument is the place of the first of them. -/
def putParts (naming : Naming) (verbose : Bool) : Nat → List Octets → Act Unit
  | _, [] => pure ()
  | i, part :: rest => do
    match naming.name? i with
    | none => fail (text "output file suffixes exhausted")
    | some name =>
      if verbose then Act.putLine (text "creating file " ++ Quote.always name)
      match ← Act.openPath name .write with
      | .error e => fail (Quote.ifNeeded name ++ text (": " ++ errorText e))
      | .ok stream =>
        Act.writeTo stream part
        putParts naming verbose (i + 1) rest

/-- All that an operand holds; nothing if its size has to be known before and is not. -/
def measuredContent (path : Octets) (needsSize : Bool) :
    Act (Except InputFailure (Option Octets)) := do
  match ← openInput path with
  | .error e => return .error e
  | .ok stream =>
    if needsSize && ((← get).toWorld.pipeOf? stream).isSome then return .ok none
    match ← takeAll stream with
    | .error e => return .error e
    | .ok found => return .ok (some found)

def run (words : List Octets) : Act Unit :=
  withOptions table (lineWords words) fun given operands => do
    let separator := (given.last? "t").getD ['\n']
    let ending := if separator = text "\\0" then '\x00' else separator.headD '\n'
    match methods given, operands with
    | .error message, _ => fail message
    | .ok (_ :: _ :: _), _ => misused 1 (text "cannot split in more than one way")
    | .ok _, _ :: _ :: extra :: _ => extraOperand extra
    | .ok asked, _ =>
      let m := asked.headD (.lines 1000)
      let path := operands.headD ['-']
      match namingOf given m ((operands.drop 1).headD ['x']) with
      | .error message => fail message
      | .ok naming =>
        if naming.ending.contains '/' then
          misused 1 (text "invalid suffix " ++ Quote.always naming.ending ++
            text ", contains directory separator")
        else
          match ← measuredContent path m.chunks?.isSome with
          | .error (.unopened e) => failOn "cannot open " path (" for reading: " ++ errorText e)
          | .error (.unreadable e) => fail (Quote.ifNeeded path ++ text (": " ++ e.message))
          | .ok none => fail (Quote.ifNeeded path ++ text ": cannot determine file size")
          | .ok (some found) =>
            let parts := m.parts ending found
            match m.chunks?.bind (·.only) with
            | some k => Act.put ((parts[k - 1]?).getD [])
            | none =>
              putParts naming (given.has "verbose") 0
                (if given.has "e" then parts.filter (· ≠ []) else parts)

end Splitting

def split : List Octets → Act Unit := Splitting.run

end BitcodeReplay.Tool
