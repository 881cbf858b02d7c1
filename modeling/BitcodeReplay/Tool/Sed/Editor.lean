import BitcodeReplay.Tool.Sed.Script

/-!
What happens to a single line: the ranges that it falls into, what a substitution makes of it, and how
it is shown.
-/

namespace BitcodeReplay.Tool.Sed

/-- Whether a range has been entered: not yet, or up to a line or to one that an address selects, or
it has been passed. -/
inductive RangeState where
  | before
  | within (last : Option Nat)
  | passed
  deriving DecidableEq, Repr

/-- Where a range that starts at a line ends: with that line, or behind it. -/
def RangeEnd.after (e : RangeEnd) (line : Nat) : RangeState :=
  match e with
  | .address (.line n) => if n ≤ line then .passed else .within (some n)
  | .address (.every first step) =>
    if first ≤ line && (line - first) % step == 0 then .passed else .within none
  | .address _ => .within none
  | .later n => if n = 0 then .passed else .within (some (line + n))
  | .multiple n => if n = 0 then .passed else .within (some (line + (n - line % n)))

/-- A text whose letters are changed: those behind a change, and the first of them in its own way. -/
structure Lettering where
  all : LetterCase
  first : Option LetterCase
  deriving DecidableEq, Repr

def LetterCase.apply (c : LetterCase) (x : Char) : Char :=
  match c with
  | .upper | .nextUpper => x.toUpper
  | .lower | .nextLower => x.toLower
  | .plain => x

/-- Writes a text in the letters that are asked for. -/
def Lettering.write (l : Lettering) (t : Octets) : Octets × Lettering :=
  match t with
  | [] => ([], l)
  | c :: rest =>
    ((l.first.getD l.all).apply c :: rest.map l.all.apply, { l with first := none })

def Lettering.change (l : Lettering) (c : LetterCase) : Lettering :=
  match c with
  | .nextUpper | .nextLower => { l with first := some c }
  | _ => ⟨c, none⟩

/-- What a replacement puts in the place of a match. -/
def replacementOf (t : Array Char) (f : Text.Regex.Found) : Lettering → List Piece → Octets
  | _, [] => []
  | l, p :: rest =>
    match p with
    | .letters c => replacementOf t f (l.change c) rest
    | .text u =>
      let (shown, l) := l.write u
      shown ++ replacementOf t f l rest
    | .part n =>
      let (shown, l) := l.write (f.part t n)
      shown ++ replacementOf t f l rest

/-- What a substitution makes of a text from a place on, and whether a match has been replaced. The
first argument bounds the steps; `count` is the number of matches before, and an empty match at
`barred`, which is where the last one ended, is none. -/
def Substitution.go (s : Substitution) (look : Text.Look) (r : Text.Regex) (t : Array Char) :
    Nat → Nat → Nat → Option Nat → Octets × Bool
  | 0, place, _, _ => ((t.extract place t.size).toList, false)
  | bound + 1, place, count, barred =>
    match r.find? look t place with
    | none => ((t.extract place t.size).toList, false)
    | some f =>
      let before := (t.extract place f.start).toList
      if f.stop = f.start && barred = some f.start then
        let copied := (t.extract place (f.start + 1)).toList
        if t.size ≤ f.start then (copied, false)
        else
          let (rest, any) := s.go look r t bound (f.start + 1) count none
          (copied ++ rest, any)
      else
        let replaces := s.nth ≤ count + 1
        let shown := if replaces then replacementOf t f ⟨.plain, none⟩ s.pieces else f.part t 0
        if replaces && !s.all then
          (before ++ shown ++ (t.extract f.stop t.size).toList, true)
        else if f.stop = f.start then
          let copied := (t.extract f.start (f.start + 1)).toList
          if t.size ≤ f.start then (before ++ shown, replaces)
          else
            let (rest, any) := s.go look r t bound (f.start + 1) (count + 1) none
            (before ++ shown ++ copied ++ rest, replaces || any)
        else
          let (rest, any) := s.go look r t bound f.stop (count + 1) (some f.stop)
          (before ++ shown ++ rest, replaces || any)

/-- What a substitution makes of a text; nothing if no match is replaced. -/
def Substitution.result? (s : Substitution) (look : Text.Look) (r : Text.Regex) (t : Octets) :
    Option Octets :=
  let text := t.toArray
  let (result, any) := s.go look r text (2 * text.size + 4) 0 0 none
  if any then some result else none

/-- How a character is shown where nothing may be hidden. -/
def shownChar (c : Char) : Octets :=
  match c with
  | '\\' => ['\\', '\\']
  | '\x07' => ['\\', 'a']
  | '\x08' => ['\\', 'b']
  | '\x0c' => ['\\', 'f']
  | '\n' => ['\\', 'n']
  | '\r' => ['\\', 'r']
  | '\t' => ['\\', 't']
  | '\x0b' => ['\\', 'v']
  | _ =>
    let n := c.toNat
    if 32 ≤ n && n < 127 then [c]
    else '\\' :: ([n / 64, n / 8 % 8, n % 8].map fun d => Char.ofNat ('0'.toNat + d))

/-- A text with all of its characters shown, in lines of a width that a backslash breaks. -/
def shownText (width : Nat) (t : Octets) : Octets :=
  let step := fun (state : List Octets × Nat) (c : Char) =>
    let shown := shownChar c
    let breaks := width > 0 && state.2 + shown.length > width - 1
    if breaks then (shown :: ['\\', '\n'] :: state.1, shown.length)
    else (shown :: state.1, state.2 + shown.length)
  (t.foldl step ([], 0)).1.reverse.flatten ++ ['$', '\n']

end BitcodeReplay.Tool.Sed
