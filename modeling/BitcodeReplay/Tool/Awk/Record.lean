import BitcodeReplay.Tool.Awk.Pattern
import BitcodeReplay.Tool.Awk.Value

/-!
Records and their fields: where a record of a text ends, and what separates its fields.
-/

namespace BitcodeReplay.Tool.Awk

open Text (Regex)

/-- What stands between two fields: blanks, nothing, a character, or what an expression matches. -/
inductive Separator where
  | blanks
  | nothing
  | one (c : Char)
  | regex (r : Regex)
  deriving DecidableEq, Repr

/-- How patterns are looked for. -/
def look : Text.Look := ⟨false, false⟩

namespace Separator

def isBlank (c : Char) : Bool := c == ' ' || c == '\t' || c == '\n'

/-- The runs of characters that are no blanks. The first argument bounds their number. -/
def words : Nat → Octets → List Octets
  | 0, _ => []
  | bound + 1, t =>
    match t.dropWhile isBlank with
    | [] => []
    | rest =>
      let word := rest.takeWhile fun c => !isBlank c
      word :: words bound (rest.drop word.length)

/-- The parts of a text between the places where an expression matches something, from a place on. The
first argument bounds their number. -/
def parts (r : Regex) (t : Array Char) : Nat → Nat → Nat → List Octets
  | 0, start, _ => [(t.extract start t.size).toList]
  | bound + 1, start, place =>
    match r.find? look t place with
    | none => [(t.extract start t.size).toList]
    | some m =>
      if m.stop = m.start then
        if t.size ≤ m.start then [(t.extract start t.size).toList] else parts r t bound start (m.start + 1)
      else (t.extract start m.start).toList :: parts r t bound m.stop m.stop

/-- The fields of a text. -/
def fields (s : Separator) (t : Octets) : List Octets :=
  if t = [] then []
  else
    match s with
    | .blanks => words t.length t
    | .nothing => t.map fun c => [c]
    | .one c => t.splitOn c
    | .regex r => parts r t.toArray (t.length + 1) 0 0

end Separator

/-- What ends a record. Paragraphs end at empty lines. -/
inductive Ender where
  | one (c : Char)
  | paragraph
  | regex (r : Regex)
  deriving DecidableEq, Repr

namespace Ender

/-- Two line feeds or more. -/
def emptyLines : Regex :=
  .cat (.one (.char '\n')) (.repeated (.one (.char '\n')) 1 none)

/-- The record at the start of a text that ends where an expression matches. A match at the end of the
text may go on behind it, unless this is all. -/
def upTo? (r : Regex) (isAll : Bool) (t : Octets) : Option (Octets × Octets) :=
  let text := t.toArray
  let found := (r.find? look text 0).filter fun m => m.start < m.stop && (isAll || m.stop < text.size)
  match found with
  | some m => some (t.take m.start, t.drop m.stop)
  | none => if isAll && t != [] then some (t, []) else none

/-- The record at the start of a text, and what is left; nothing if its end is not in sight. -/
def record? (e : Ender) (isAll : Bool) (t : Octets) : Option (Octets × Octets) :=
  match e with
  | .one c =>
    let line := t.takeWhile (· != c)
    match t.drop line.length with
    | _ :: rest => some (line, rest)
    | [] => if isAll && t != [] then some (line, []) else none
  | .regex r => upTo? r isAll t
  | .paragraph =>
    let t := t.dropWhile (· == '\n')
    (upTo? emptyLines isAll t).map fun (record, rest) =>
      (if rest = [] && record.getLast? = some '\n' then record.dropLast else record, rest)

end Ender

/-- What a replacement stands for, given what it replaces: that is put in for each ampersand, unless a
backslash stands before it. The first argument is how many backslashes have been read. -/
def replacement (found : Octets) : Nat → Octets → Octets
  | n, '\\' :: rest => replacement found (n + 1) rest
  | n, '&' :: rest =>
    List.replicate (n / 2) '\\' ++ (if n % 2 = 1 then ['&'] else found) ++ replacement found 0 rest
  | n, c :: rest => List.replicate n '\\' ++ c :: replacement found 0 rest
  | n, [] => List.replicate n '\\'

/-- Replaces what an expression matches from a place on, and how often. Nothing is matched at the place
where another match has just ended. The first argument bounds the matches. -/
def replaceAll (r : Regex) (new : Octets) (t : Array Char) : Nat → Nat → Option Nat → Octets × Nat
  | 0, place, _ => ((t.extract place t.size).toList, 0)
  | bound + 1, place, last =>
    match r.find? look t place with
    | none => ((t.extract place t.size).toList, 0)
    | some m =>
      let before := (t.extract place m.start).toList
      let step := fun (put : Octets) (count next : Nat) (last : Option Nat) =>
        let (rest, n) := replaceAll r new t bound next last
        (before ++ put ++ rest, count + n)
      if m.start = m.stop then
        let kept := (t.extract m.start (m.start + 1)).toList
        let put := if last = some m.start then [] else replacement [] 0 new
        let count := if last = some m.start then 0 else 1
        if t.size ≤ m.start then (before ++ put, count) else step (put ++ kept) count (m.start + 1) none
      else step (replacement (t.extract m.start m.stop).toList 0 new) 1 m.stop (some m.stop)

/-- Replaces the first match of an expression, and how many there were. -/
def replaceFirst (r : Regex) (new : Octets) (t : Octets) : Octets × Nat :=
  match r.find? look t.toArray 0 with
  | none => (t, 0)
  | some m =>
    (t.take m.start ++ replacement ((t.take m.stop).drop m.start) 0 new ++ t.drop m.stop, 1)

end BitcodeReplay.Tool.Awk
