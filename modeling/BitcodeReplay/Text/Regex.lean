import BitcodeReplay.Text.Bracket

/-!
Regular expressions over the characters of a text, and where they match. Of the matches at a place
the longest counts, and of all matches the first from the left.
-/

namespace BitcodeReplay.Text

/-- What one character has to be. -/
inductive One where
  | char (c : Char)
  | any
  | set (s : CharacterSet)
  deriving DecidableEq, Repr

/-- A condition on a place between two characters. -/
inductive Anchor where
  | lineStart
  | lineEnd
  | textStart
  | textEnd
  | wordStart
  | wordEnd
  | wordEdge
  | insideWord
  deriving DecidableEq, Repr

inductive Regex where
  | empty
  | one (o : One)
  | anchor (a : Anchor)
  | back (group : Nat)
  | group (number : Nat) (r : Regex)
  | cat (first second : Regex)
  | alt (first second : Regex)
  | repeated (r : Regex) (least : Nat) (most : Option Nat)
  deriving DecidableEq, Repr

/-- The places where marked parts of a match start and end, the last first. -/
abbrev Groups := List (Nat × Nat × Nat)

/-- How a text is looked at: whether letters of both cases are the same, and whether anchors stand
at every line. -/
structure Look where
  folds : Bool
  lines : Bool
  deriving DecidableEq, Repr

namespace Regex

def isWordChar (c : Char) : Bool := isLetter c || isDigit c || c == '_'

def swapCase (c : Char) : Char := if inClass "upper" c then c.toLower else c.toUpper

def One.holds (folds : Bool) (c : Char) (o : One) : Bool :=
  match o with
  | .char x => x == c || (folds && x == swapCase c)
  | .any => true
  | .set s => s.holds c || (folds && s.holds (swapCase c))

def Anchor.holds (look : Look) (text : Array Char) (place : Nat) (a : Anchor) : Bool :=
  let before := if place = 0 then none else text[place - 1]?
  let after := text[place]?
  let wordBefore := before.any isWordChar
  let wordAfter := after.any isWordChar
  match a with
  | .textStart => place == 0
  | .textEnd => place == text.size
  | .lineStart => place == 0 || (look.lines && before == some '\n')
  | .lineEnd => place == text.size || (look.lines && after == some '\n')
  | .wordStart => !wordBefore && wordAfter
  | .wordEnd => wordBefore && !wordAfter
  | .wordEdge => wordBefore != wordAfter
  | .insideWord => wordBefore == wordAfter

/-- Keeps the first of the results that end at one place. -/
def firstOfEach : List Nat → List (Nat × Groups) → List (Nat × Groups)
  | _, [] => []
  | seen, (place, groups) :: rest =>
    if seen.contains place then firstOfEach seen rest
    else (place, groups) :: firstOfEach (place :: seen) rest

/-- Results with those that end last in front. -/
def longestFirst (results : List (Nat × Groups)) : List (Nat × Groups) :=
  (firstOfEach [] results).mergeSort fun a b => b.1 ≤ a.1

/-- Repeats a step at least and at most as often as given. A step that takes nothing is not
repeated. The first argument bounds the number of steps. -/
def iterate (step : Nat → Groups → List (Nat × Groups)) :
    Nat → Nat → Option Nat → Nat → Groups → List (Nat × Groups)
  | 0, _, _, place, groups => [(place, groups)]
  | bound + 1, least, most, place, groups =>
    let more :=
      if most = some 0 then []
      else
        (step place groups).flatMap fun (next, inner) =>
          if next = place && least ≤ 1 then [(next, inner)]
          else iterate step bound (least - 1) (most.map (· - 1)) next inner
    if least = 0 then longestFirst (more ++ [(place, groups)]) else longestFirst more

/-- How many characters from a place on satisfy `p`, at most as many as given. -/
def runLength (p : Char → Bool) (text : Array Char) : Nat → Nat → Nat
  | 0, _ => 0
  | bound + 1, place =>
    if text[place]?.any p then runLength p text bound (place + 1) + 1 else 0

/-- The places where a match that starts at a place can end, the longest first, each with the parts
that it marks. -/
def ends (look : Look) (text : Array Char) : Regex → Nat → Groups → List (Nat × Groups)
  | .empty, place, groups => [(place, groups)]
  | .one o, place, groups =>
    if text[place]?.any (One.holds look.folds · o) then [(place + 1, groups)] else []
  | .anchor a, place, groups =>
    if Anchor.holds look text place a then [(place, groups)] else []
  | .back n, place, groups =>
    match groups.lookup n with
    | none => []
    | some (start, stop) =>
      let part := (text.extract start stop).toList
      let here := (text.extract place (place + part.length)).toList
      let same := fun (a, b) => a == b || (look.folds && a == swapCase b)
      if here.length = part.length && (part.zip here).all same then
        [(place + part.length, groups)]
      else []
  | .group n r, place, groups =>
    (ends look text r place groups).map fun (stop, inner) => (stop, (n, place, stop) :: inner)
  | .cat a b, place, groups =>
    longestFirst
      ((ends look text a place groups).flatMap fun (next, inner) => ends look text b next inner)
  | .alt a b, place, groups =>
    longestFirst (ends look text a place groups ++ ends look text b place groups)
  | .repeated r least most, place, groups =>
    match r with
    | .one o =>
      let room := text.size - place
      let run := runLength (One.holds look.folds · o) text ((most.map (min room)).getD room) place
      (List.range (run + 1 - least)).map fun i => (place + run - i, groups)
    | _ =>
      iterate (fun place groups => ends look text r place groups) (text.size + least + 2) least most
        place groups

/-- A match: where it starts and ends, and the parts that it marks. -/
structure Found where
  start : Nat
  stop : Nat
  groups : Groups

/-- The first match from a place on. The first argument bounds how far it is looked for. -/
def search (look : Look) (r : Regex) (text : Array Char) : Nat → Nat → Option Found
  | 0, _ => none
  | bound + 1, place =>
    match ends look text r place [] with
    | (stop, groups) :: _ => some ⟨place, stop, groups⟩
    | [] => search look r text bound (place + 1)

/-- The first match in a text from a place on. -/
def find? (look : Look) (r : Regex) (text : Array Char) (place : Nat) : Option Found :=
  search look r text (text.size + 1 - place) place

/-- Whether a match covers a text from its start to its end. -/
def covers (look : Look) (r : Regex) (text : Array Char) : Bool :=
  (ends look text r 0 []).any fun (stop, _) => stop == text.size

/-- The text that a marked part covers; the empty text if there is none. -/
def Found.part (f : Found) (text : Array Char) (n : Nat) : List Char :=
  if n = 0 then (text.extract f.start f.stop).toList
  else
    match f.groups.lookup n with
    | some (start, stop) => (text.extract start stop).toList
    | none => []

/-- How many parts an expression marks. -/
def groupCount : Regex → Nat
  | .empty | .one _ | .anchor _ | .back _ => 0
  | .group _ r => groupCount r + 1
  | .cat a b | .alt a b => groupCount a + groupCount b
  | .repeated r _ _ => groupCount r

end Regex

end BitcodeReplay.Text
