import BitcodeReplay.Tool.Basic
import BitcodeReplay.Tool.Entry

/-!
The tool that compares files byte by byte.
-/

namespace BitcodeReplay.Tool

open Shell

/-- Complains of the words like the tools that compare files. -/
def misusedComparison (message : Octets) : Act Unit := do
  failWith 2 message
  let s ← get
  say (text "Try '" ++ s.name ++ text " --help' for more information.")

/-- The options and the operands of a tool that compares files. -/
def withComparisonOptions (t : OptionTable) (words : List Octets)
    (act : Given → List Octets → Act Unit) : Act Unit := do
  match t.read words with
  | .ok (given, operands) => act given operands
  | .error e => misusedComparison (text e.message)

/-- Whether two operands are the same file. -/
def isSameOperand (s : Session) (a b : Octets) : Bool :=
  if a = ['-'] || b = ['-'] then a = b
  else
    match lookAt s true a, lookAt s true b with
    | .ok x, .ok y => isSameFile s x y
    | _, _ => false

namespace Compare

/-- What is told of differences. -/
inductive Telling where
  | first
  | all
  | nothing
  deriving DecidableEq, Repr

structure Manner where
  telling : Telling
  showsBytes : Bool
  skipA : Nat
  skipB : Nat
  limit : Option Nat
  deriving DecidableEq, Repr

/-- A byte so that it can be seen. -/
def visible (c : Char) : Octets :=
  let low := fun c : Char =>
    if c.toNat < 32 then ['^', Char.ofNat (c.toNat + 64)]
    else if c.toNat = 127 then ['^', '?']
    else [c]
  if 128 ≤ c.toNat then text "M-" ++ low (Char.ofNat (c.toNat - 128)) else low c

/-- The number of a byte in octal digits. -/
def octal (c : Char) : Octets := rightAligned 3 (Nat.toDigits 8 c.toNat)

/-- How far two texts are the same, and how many line feeds stand there, behind some that have been
seen. -/
def common (n lines : Nat) : Octets → Octets → Nat × Nat
  | x :: s, y :: t =>
    if x = y then common (n + 1) (if x = '\n' then lines + 1 else lines) s t else (n, lines)
  | _, _ => (n, lines)

/-- The bytes that differ, each with its place. -/
def differing (a b : Octets) : List (Nat × Char × Char) :=
  ((a.zip b).zipIdx.filter fun p => p.1.1 != p.1.2).map fun p => (p.2 + 1, p.1.1, p.1.2)

/-- A line for a byte that differs, with its place in so many columns. -/
def Manner.row (m : Manner) (width : Nat) (d : Nat × Char × Char) : Octets :=
  let place := rightAligned width (Octets.ofNat d.1) ++ [' '] ++ octal d.2.1 ++ [' ']
  if m.showsBytes then
    place ++ leftAligned 4 (visible d.2.1) ++ [' '] ++ octal d.2.2 ++ [' '] ++ visible d.2.2
  else place ++ octal d.2.2

/-- What is said of a text that ends before the other. -/
def ended (name : Octets) (tellsLine : Bool) (t : Octets) : Octets :=
  text "EOF on " ++ Quote.ifNeeded name ++
    if t = [] then text " which is empty"
    else
      let lines := t.count '\n'
      text (" after byte " ++ toString t.length) ++
        if !tellsLine then []
        else if t.getLast? = some '\n' then text (", line " ++ toString lines)
        else text (", in line " ++ toString (lines + 1))

/-- The texts of two operands; nothing after a complaint. -/
def Manner.read? (m : Manner) (a b : Octets) : Act (Option (Octets × Octets)) := do
  let complain := fun (path : Octets) (e : InputFailure) => do
    if m.telling = .nothing then Act.setStatus 2
    else failWith 2 (Quote.ifNeeded path ++ text (": " ++ e.reason))
  match ← openInput a with
  | .error e =>
    complain a e
    return none
  | .ok streamA =>
    match ← openInput b with
    | .error e =>
      complain b e
      return none
    | .ok streamB =>
      match ← takeAll streamA with
      | .error e =>
        complain a e
        return none
      | .ok first =>
        match ← takeAll streamB with
        | .error e =>
          complain b e
          return none
        | .ok second => return some (first, second)

/-- How many columns the places of bytes take. -/
def placeWidth (s : Session) (paths : List Octets) (sizes : List Nat) (limit : Option Nat) : Nat :=
  let known := (paths.zip sizes).filterMap fun (path, size) =>
    if path = ['-'] then none
    else
      match lookAt s true path with
      | .ok ⟨_, .file ..⟩ => some size
      | _ => none
  (toString ((limit.toList ++ known).foldl min 9223372036854775807)).length

/-- Compares two operands. -/
def Manner.run (m : Manner) (a b : Octets) : Act Unit := do
  let s ← get
  if isSameOperand s a b && m.skipA = m.skipB then pure ()
  else
    match ← m.read? a b with
    | none => pure ()
    | some (wholeA, wholeB) =>
      let cut := fun (t : Octets) => m.limit.elim t t.take
      let first := cut (wholeA.drop m.skipA)
      let second := cut (wholeB.drop m.skipB)
      let shorter := if first.length ≤ second.length then (a, first) else (b, second)
      let sameLength := first.length = second.length
      if first = second then pure ()
      else
        Act.setStatus 1
        let (n, lines) := common 0 0 first second
        match m.telling with
        | .nothing => pure ()
        | .all =>
          let width := placeWidth s [a, b] [wholeA.length - m.skipA, wholeB.length - m.skipB] m.limit
          if !sameLength then failWith 1 (ended shorter.1 false shorter.2)
          Act.put ((differing first second).flatMap fun d => m.row width d ++ ['\n'])
        | .first =>
          match first.drop n, second.drop n with
          | x :: _, y :: _ =>
            let place := toString (n + 1) ++ ", line " ++ toString (lines + 1)
            Act.putLine (a ++ [' '] ++ b ++ text " differ: " ++
              if m.showsBytes then
                text ("byte " ++ place ++ " is ") ++ octal x ++ [' '] ++ visible x ++ [' '] ++
                  octal y ++ [' '] ++ visible y
              else text ("char " ++ place))
          | _, _ => failWith 1 (ended shorter.1 true shorter.2)

def table : OptionTable :=
  .of "bci:ln:s"
    [("print-bytes", "b", .nothing), ("print-chars", "b", .nothing),
      ("ignore-initial", "i", .required), ("verbose", "l", .nothing), ("bytes", "n", .required),
      ("quiet", "s", .nothing), ("silent", "s", .nothing)]

/-- The two numbers in a word, of which the second may be left out. -/
def skips? (word : Octets) : Option (Nat × Nat) :=
  match word.splitOn ':' with
  | [both] => (count? both).map fun n => (n, n)
  | [one, other] => do return (← count? one, ← count? other)
  | _ => none

end Compare

def cmp (words : List Octets) : Act Unit :=
  withComparisonOptions Compare.table words fun given operands => do
    let has := given.has
    let initial := given.last? "i"
    let limit := given.last? "n"
    match initial.map Compare.skips?, limit.map count? with
    | some none, _ =>
      misusedComparison (text "invalid --ignore-initial value " ++ Quote.always (initial.getD []))
    | _, some none =>
      misusedComparison (text "invalid --bytes value " ++ Quote.always (limit.getD []))
    | skips, limit =>
      if has "l" && has "s" then
        misusedComparison (text "options -l and -s are incompatible")
      else
        match operands with
        | [] => misusedComparison (text "missing operand after " ++ Quote.always (words.getLastD (← get).name))
        | a :: rest =>
          let numbers := (rest.drop 1).map fun word => (word, count? word)
          match rest.drop 3, numbers.find? fun p => p.2.isNone with
          | extra :: _, _ => misusedComparison (text "extra operand " ++ Quote.always extra)
          | [], some (word, _) =>
            misusedComparison (text "invalid --ignore-initial value " ++ Quote.always word)
          | [], none =>
            let asked := (skips.bind id).getD (0, 0)
            let given? := fun i => (numbers[i]?).bind (·.2)
            let m : Compare.Manner :=
              { telling := if has "s" then .nothing else if has "l" then .all else .first
                showsBytes := has "b" || has "c"
                skipA := (given? 0).getD asked.1
                skipB := (given? 1).getD asked.2
                limit := limit.bind id }
            m.run a (rest.headD ['-'])

end BitcodeReplay.Tool
