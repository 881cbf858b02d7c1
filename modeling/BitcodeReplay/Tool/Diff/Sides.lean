import BitcodeReplay.Text.Difference
import BitcodeReplay.Text.Regex
import BitcodeReplay.Tool.Basic
import Std.Data.HashMap

/-!
Two texts that are compared line by line, and the changes between them.
-/

namespace BitcodeReplay.Tool.Diff

open Text.Difference

/-- Which white space counts in lines. -/
inductive White where
  | counts
  | tabsAreSpaces
  | endDropped
  | amountDropped
  | dropped
  deriving DecidableEq, Repr

/-- How lines are compared. With `completes`, a last line counts as ended by a line feed. -/
structure Likeness where
  folds : Bool
  white : White
  completes : Bool
  minimal : Bool
  blankIgnored : Bool
  ignored : List Text.Regex
  deriving DecidableEq, Repr

def isWhite (c : Char) : Bool := Text.inClass "space" c

/-- A line without the line feed that ends it. -/
def bare (line : Octets) : Octets := if line.getLast? = some '\n' then line.dropLast else line

/-- A text in which tabs are written as spaces, from a column on. -/
def withoutTabs (column : Nat) : Octets → Octets
  | [] => []
  | '\t' :: rest =>
    let width := 8 - column % 8
    List.replicate width ' ' ++ withoutTabs (column + width) rest
  | '\x08' :: rest => '\x08' :: withoutTabs (column - 1) rest
  | c :: rest => c :: withoutTabs (column + 1) rest

def dropEnd (t : Octets) : Octets := (t.reverse.dropWhile isWhite).reverse

/-- A text in which each run of white space is one space. -/
def squeezed : Octets → Octets
  | [] => []
  | c :: rest =>
    if isWhite c then
      if rest.head?.any isWhite then squeezed rest else ' ' :: squeezed rest
    else c :: squeezed rest

namespace Likeness

/-- What counts of a line. A last line that nothing ends is like no other, unless white space at its end
does not count. -/
def key (l : Likeness) (line : Octets) : Octets :=
  let t := bare line
  let t := if l.folds then t.map Char.toLower else t
  let endsAlike := l.completes || match l.white with
    | .counts | .tabsAreSpaces => false
    | _ => true
  let t := match l.white with
    | .counts => t
    | .tabsAreSpaces => withoutTabs 0 t
    | .endDropped => dropEnd t
    | .amountDropped => squeezed (dropEnd t)
    | .dropped => t.filter fun c => !isWhite c
  if endsAlike || line.getLast? = some '\n' then t else t ++ ['\n']

/-- Whether a change in a line does not matter. -/
def ignores (l : Likeness) (line : Octets) : Bool :=
  let t := bare line
  let seen := match l.white with
    | .counts | .tabsAreSpaces => t
    | .endDropped => if t.all isWhite then [] else t
    | .amountDropped | .dropped => t.dropWhile isWhite
  (l.blankIgnored && seen = []) ||
    l.ignored.any fun r => (r.find? ⟨l.folds, false⟩ t.toArray 0).isSome

end Likeness

/-- Lines as numbers, and how many numbers there are. -/
def numbered (keys : List Octets) : Lines × Nat :=
  let (found, _, numbers) := keys.foldl
    (fun ((found : Array Nat), (count : Nat), (numbers : Std.HashMap String Nat)) key =>
      let name := String.ofList key
      match numbers[name]? with
      | some n => (found.push n, count, numbers)
      | none => (found.push count, count + 1, numbers.insert name count))
    (#[], 0, {})
  (found, numbers.size)

/-- How many lines are the same at the start of two texts. -/
def sharedStart : Nat → List Octets → List Octets → Nat
  | n, x :: s, y :: t => if x = y then sharedStart (n + 1) s t else n
  | n, _, _ => n

/-- Whether a text ends with a line feed, if it has any bytes. -/
def isComplete (lines : List Octets) : Bool :=
  match lines.getLast? with
  | some line => line.getLast? = some '\n'
  | none => true

/-- The changes between two texts. Lines that are the same at the start and at the end are not looked
at, apart from so many next to the others. -/
def Likeness.changes (l : Likeness) (horizon : Nat) (a b : List Octets) : List Change :=
  let start := sharedStart 0 a b - horizon
  let restA := a.drop start
  let restB := b.drop start
  let stop :=
    if l.completes || isComplete a = isComplete b then
      sharedStart 0 restA.reverse restB.reverse - horizon
    else 0
  let partA := restA.take (restA.length - stop)
  let partB := restB.take (restB.length - stop)
  let (numbers, classes) := numbered ((partA ++ partB).map l.key)
  (Text.Difference.changes classes l.minimal (numbers.extract 0 partA.length)
    (numbers.extract partA.length numbers.size)).map fun c =>
      { c with old := c.old + start, new := c.new + start }

/-- Whether a change does not matter: none of its lines does. -/
def Likeness.isTrivial (l : Likeness) (a b : Array Octets) (c : Change) : Bool :=
  (l.blankIgnored || l.ignored ≠ []) &&
    (a.extract c.old (c.old + c.dropped)).all l.ignores &&
    (b.extract c.new (c.new + c.added)).all l.ignores

end BitcodeReplay.Tool.Diff
