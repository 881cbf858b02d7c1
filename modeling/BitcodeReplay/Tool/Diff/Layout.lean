import BitcodeReplay.Tool.Diff.Sides
import BitcodeReplay.Tool.Moment

/-!
How the changes between two texts are written.
-/

namespace BitcodeReplay.Tool.Diff

open Text.Difference

/-- A text that is compared: what stands for it in a heading, and its lines with their ends. -/
structure Side where
  heading : Octets
  lines : Array Octets

inductive Style where
  | normal
  | unified (context : Nat)
  | context (lines : Nat)
  | editor
  | numbered
  | beside (width : Nat) (leftOnly hidesCommon : Bool)
  deriving DecidableEq, Repr

/-- How many lines around changes are shown. -/
def Style.around : Style → Nat
  | .unified n | .context n => n
  | _ => 0

/-- How lines are shown. -/
structure Manner where
  style : Style
  spaces : Bool
  tabFirst : Bool
  functions : Bool
  deriving DecidableEq, Repr

/-- The number of the first and of the last line of a range, or of the line in front of it if it has
none. -/
def range (start count : Nat) (separator : Char) : Octets :=
  if 1 < count then Octets.ofNat (start + 1) ++ separator :: Octets.ofNat (start + count)
  else Octets.ofNat (start + count)

/-- A line behind a mark. -/
def Manner.line (m : Manner) (mark : Octets) (line : Octets) : Octets :=
  let t := bare line
  mark ++ (if m.spaces then withoutTabs 0 t else t) ++ ['\n'] ++
    if line.getLast? = some '\n' then [] else text "\\ No newline at end of file\n"

/-- Lines behind a mark and what separates it from them. -/
def Manner.lines (m : Manner) (mark : Char) (lines : Array Octets) : Octets :=
  lines.toList.flatMap (m.line [mark, if m.tabFirst then '\t' else ' '])

def taken (c : Change) (a : Side) : Array Octets := a.lines.extract c.old (c.old + c.dropped)

def given (c : Change) (b : Side) : Array Octets := b.lines.extract c.new (c.new + c.added)

/-- The letter of a change. -/
def letter (c : Change) : Char := if c.dropped = 0 then 'a' else if c.added = 0 then 'd' else 'c'

/-- A change with its lines. -/
def Manner.normal (m : Manner) (a b : Side) (c : Change) : Octets :=
  range c.old c.dropped ',' ++ letter c :: range c.new c.added ',' ++ ['\n'] ++
    m.lines '<' (taken c a) ++
    (if c.dropped = 0 || c.added = 0 then [] else text "---\n") ++
    m.lines '>' (given c b)

/-- Changes that are so close that what is shown around them touches. -/
def together (isTrivial : Change → Bool) (around : Nat) : List Change → List (List Change)
  | [] => []
  | c :: rest =>
    match together isTrivial around rest with
    | (next :: more) :: groups =>
      let gap := next.old - (c.old + c.dropped)
      let limit := if isTrivial next then around else 2 * around + 1
      if gap < limit then (c :: next :: more) :: groups else [c] :: (next :: more) :: groups
    | groups => [c] :: groups

/-- Changes that are shown together, with the lines around them: where these start and how many they
are, on both sides. -/
structure Hunk where
  changes : List Change
  oldStart : Nat
  oldCount : Nat
  newStart : Nat
  newCount : Nat

def Hunk.of (around : Nat) (a b : Side) (changes : List Change) : Hunk :=
  let first := changes.headD ⟨0, 0, 0, 0⟩
  let last := changes.getLastD ⟨0, 0, 0, 0⟩
  let oldStart := first.old - around
  let newStart := first.new - around
  let oldStop := min a.lines.size (last.old + last.dropped + around)
  let newStop := min b.lines.size (last.new + last.added + around)
  ⟨changes, oldStart, oldStop - oldStart, newStart, newStop - newStart⟩

/-- The line of a text that names the function in which a place stands. -/
def functionLine (a : Side) (place : Nat) : Octets :=
  let names := fun line : Octets =>
    line.head?.any fun c => Text.isLetter c || c == '_' || c == '$'
  match (a.lines.extract 0 place).toList.reverse.find? names with
  | some line => ' ' :: dropEnd (((bare line).dropWhile isWhite).take 40)
  | none => []

/-- The lines of a unified hunk from a place on. -/
def Manner.unifiedLines (m : Manner) (a b : Side) (stop : Nat) : Nat → List Change → Octets
  | place, changes =>
    let marked := fun (mark : Octets) (lines : Array Octets) => lines.toList.flatMap (m.line mark)
    let changed := fun mark : Char => if m.tabFirst then [mark, '\t'] else [mark]
    let common := if m.tabFirst then ['\t'] else [' ']
    match changes with
    | [] => marked common (a.lines.extract place stop)
    | c :: rest =>
      marked common (a.lines.extract place c.old) ++ marked (changed '-') (taken c a) ++
        marked (changed '+') (given c b) ++ m.unifiedLines a b stop (c.old + c.dropped) rest

/-- A range as unified hunks show it. -/
def unifiedRange (start count : Nat) : Octets :=
  if count = 1 then Octets.ofNat (start + 1)
  else if count = 0 then Octets.ofNat start ++ text ",0"
  else Octets.ofNat (start + 1) ++ ',' :: Octets.ofNat count

def Manner.unified (m : Manner) (a b : Side) (h : Hunk) : Octets :=
  text "@@ -" ++ unifiedRange h.oldStart h.oldCount ++ text " +" ++
    unifiedRange h.newStart h.newCount ++ text " @@" ++
    (if m.functions then functionLine a h.oldStart else []) ++ ['\n'] ++
    m.unifiedLines a b (h.oldStart + h.oldCount) h.oldStart h.changes

/-- The mark of a line in a hunk, given where its changes start and how long they are on its side and
on the other. -/
def markOf (only : Char) (spans : List (Nat × Nat × Nat)) (place : Nat) : Char :=
  match spans.find? fun (start, count, _) => start ≤ place && place < start + count with
  | some (_, _, 0) => only
  | some _ => '!'
  | none => ' '

def Manner.contextHunk (m : Manner) (a b : Side) (h : Hunk) : Octets :=
  let side := fun (s : Side) (start count : Nat) (only : Char) (spans : List (Nat × Nat × Nat)) =>
    if spans.all fun p => p.2.1 = 0 then []
    else
      (List.range count).flatMap fun i =>
        let place := start + i
        m.line [markOf only spans place, if m.tabFirst then '\t' else ' '] ((s.lines[place]?).getD [])
  text "***************" ++ (if m.functions then functionLine a h.oldStart else []) ++
    text "\n*** " ++ range h.oldStart h.oldCount ',' ++ text " ****\n" ++
    side a h.oldStart h.oldCount '-' (h.changes.map fun c => (c.old, c.dropped, c.added)) ++
    text "--- " ++ range h.newStart h.newCount ',' ++ text " ----\n" ++
    side b h.newStart h.newCount '+' (h.changes.map fun c => (c.new, c.added, c.dropped))

/-- Lines as an editor takes them; one that would end the input is written with a dot more. The flag
says that lines are being put in. -/
def editorLines : Bool → List Octets → Octets
  | putsIn, [] => if putsIn then text ".\n" else []
  | putsIn, line :: rest =>
    let start := if putsIn then [] else text "a\n"
    if line = text ".\n" then start ++ text "..\n.\ns/.//\n" ++ editorLines false rest
    else start ++ bare line ++ ['\n'] ++ editorLines true rest

def editorChange (b : Side) (c : Change) : Octets :=
  range c.old c.dropped ',' ++ [letter c, '\n'] ++
    if c.added = 0 then [] else editorLines true (given c b).toList

def numberedChange (b : Side) (c : Change) : Octets :=
  (if c.dropped = 0 then []
    else text "d" ++ Octets.ofNat (c.old + 1) ++ ' ' :: Octets.ofNat c.dropped ++ ['\n']) ++
    if c.added = 0 then []
    else
      text "a" ++ Octets.ofNat (c.old + c.dropped) ++ ' ' :: Octets.ofNat c.added ++ ['\n'] ++
        (given c b).toList.flatten

/-- Blanks from a column to another, as few as there may be. -/
def Manner.blanks (m : Manner) (start stop : Nat) : Octets :=
  let tabs := if m.spaces then 0 else stop / 8 - start / 8
  if tabs = 0 then List.replicate (stop - start) ' '
  else List.replicate tabs '\t' ++ List.replicate (stop % 8) ' '

/-- As much of a line as fits into a width, from a column on, and the column behind it. -/
def halfLine (width : Nat) : Nat → Octets → Octets × Nat
  | column, [] => ([], column)
  | column, '\t' :: rest =>
    let next := column + 8 - column % 8
    if next ≤ width then
      let (t, stop) := halfLine width next rest
      ('\t' :: t, stop)
    else ([], column)
  | column, c :: rest =>
    if column < width then
      let (t, stop) := halfLine width (column + 1) rest
      (c :: t, stop)
    else ([], column)

/-- Where the columns of two texts beside each other end and start. -/
def besideWidths (m : Manner) (width : Nat) : Nat × Nat :=
  let tab := if m.spaces then 1 else 8
  let free := tab + 3
  let unaligned := width / 2 + free / 2 + (if width % 2 = 1 && free % 2 = 1 then 1 else 0)
  let offset := unaligned - unaligned % tab
  let half := min (offset - 3) (width - offset)
  (half, if half = 0 then width else offset)

/-- Two lines beside each other. -/
def Manner.besideLine (m : Manner) (width : Nat) (left? right? : Option Octets) (mark : Char) :
    Octets :=
  let (half, offset) := besideWidths m width
  let ends := fun line? : Option Octets => line?.any fun line => line.getLast? = some '\n'
  let (left, column) := halfLine half 0 ((left?.map bare).getD [])
  let mark := if mark = '|' && ends left? != ends right? then (if ends left? then '/' else '\\') else mark
  let middle := (half + offset - 1) / 2
  let marked := if mark = ' ' then left else left ++ m.blanks column middle ++ [mark]
  let column := if mark = ' ' then column else middle + 1
  let right := (right?.map bare).getD []
  marked ++
    (if right = [] then [] else m.blanks column offset ++ (halfLine half 0 right).1) ++
    if ends left? || ends right? then ['\n'] else []

/-- Two texts beside each other from two places on. -/
def Manner.beside (m : Manner) (width : Nat) (leftOnly hidesCommon : Bool) (a b : Side) :
    Nat → Nat → List Change → Octets
  | i, j, changes =>
    let common := fun (i j count : Nat) =>
      if hidesCommon then []
      else
        (List.range count).flatMap fun k =>
          if leftOnly then m.besideLine width (a.lines[i + k]?) none '('
          else m.besideLine width (a.lines[i + k]?) (b.lines[j + k]?) ' '
    match changes with
    | [] => common i j (a.lines.size - i)
    | c :: rest =>
      common i j (c.old - i) ++
        ((List.range (max c.dropped c.added)).flatMap fun k =>
          let left := if k < c.dropped then a.lines[c.old + k]? else none
          let right := if k < c.added then b.lines[c.new + k]? else none
          m.besideLine width left right (if left.isNone then '>' else if right.isNone then '<' else '|')) ++
        m.beside width leftOnly hidesCommon a b (c.old + c.dropped) (c.new + c.added) rest

/-- The changes between two texts in a style. -/
def Manner.write (m : Manner) (isTrivial : Change → Bool) (a b : Side) (changes : List Change) :
    Octets :=
  let around := m.style.around
  let hunks := ((together isTrivial around changes).filter fun g => !g.all isTrivial).map
    (Hunk.of around a b)
  let real := changes.filter fun c => !isTrivial c
  match m.style with
  | .normal => real.flatMap (m.normal a b)
  | .unified _ =>
    text "--- " ++ a.heading ++ text "\n+++ " ++ b.heading ++ ['\n'] ++ hunks.flatMap (m.unified a b)
  | .context _ =>
    text "*** " ++ a.heading ++ text "\n--- " ++ b.heading ++ ['\n'] ++
      hunks.flatMap (m.contextHunk a b)
  | .editor => real.reverse.flatMap (editorChange b)
  | .numbered => real.flatMap (numberedChange b)
  | .beside width leftOnly hidesCommon => m.beside width leftOnly hidesCommon a b 0 0 changes

end BitcodeReplay.Tool.Diff
