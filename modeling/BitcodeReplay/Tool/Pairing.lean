import BitcodeReplay.Tool.Ordering

/-!
The tools that compare lines with those beside them, in one text or in two.
-/

namespace BitcodeReplay.Tool

open Shell

/-- How `uniq` compares lines. -/
structure Sameness where
  fields : Nat
  chars : Nat
  width : Option Nat
  folds : Bool
  deriving DecidableEq, Repr

/-- The part of a line that counts. -/
def Sameness.view (u : Sameness) (line : Octets) : Octets :=
  let rest := (dropFields none false u.fields line).drop u.chars
  let rest := (u.width.map rest.take).getD rest
  if u.folds then rest.map Char.toLower else rest

/-- Lines in groups of those that are the same. -/
def Sameness.groups (u : Sameness) (lines : List Octets) : List (List Octets) :=
  (lines.foldl (fun groups line =>
    match groups with
    | (last :: more) :: above =>
      if u.view last = u.view line then (line :: last :: more) :: above else [line] :: groups
    | _ => [line] :: groups) ([] : List (List Octets))).reverse.map List.reverse

def uniqTable : OptionTable :=
  .of "cdDf:is:uw:z"
    [("count", "c", .nothing), ("repeated", "d", .nothing), ("all-repeated", "D", .optional),
      ("group", "group", .optional), ("skip-fields", "f", .required), ("ignore-case", "i", .nothing),
      ("skip-chars", "s", .required), ("unique", "u", .nothing), ("check-chars", "w", .required),
      ("zero-terminated", "z", .nothing)]

/-- Groups of lines with empty lines where a method asks for them. -/
def separatedGroups (how : String) (groups : List (List Octets)) : List Octets :=
  let joined := List.intercalate [[]] groups
  if groups = [] then []
  else
    match how with
    | "prepend" => [] :: joined
    | "append" => joined ++ [[]]
    | "both" => [] :: joined ++ [[]]
    | "separate" => joined
    | _ => groups.flatten

/-- The words of an old form in which digits stand for the fields to skip. -/
def fieldWords (words : List Octets) : List Octets :=
  words.map fun w =>
    match w with
    | '-' :: c :: rest => if (c :: rest).all Text.isDigit then '-' :: 'f' :: c :: rest else w
    | _ => w

def uniq (words : List Octets) : Act Unit :=
  withOptions uniqTable (fieldWords words) fun given operands => do
    let number := fun key => (given.last? key).map fun w => (w, decimal? w)
    let wrong := [("f", "invalid number of fields to skip"), ("s", "invalid number of bytes to skip"),
        ("w", "invalid number of bytes to compare")].findSome? fun (key, what) =>
      match number key with
      | some (w, none) => some (w, what)
      | _ => none
    let has := given.has
    let count := fun key => ((number key).bind (·.2))
    match wrong, operands with
    | some (w, what), _ => fail (w ++ text (": " ++ what))
    | none, _ :: _ :: extra :: _ => extraOperand extra
    | none, _ =>
      if has "c" && has "D" then
        misused 1 (text "printing all duplicated lines and repeat counts is meaningless")
      else if has "group" && (has "c" || has "d" || has "D" || has "u") then
        misused 1 (text "--group is mutually exclusive with -c/-d/-D/-u")
      else
        match ← content? (operands.headD ['-']) with
        | none => pure ()
        | some found =>
          let u : Sameness := ⟨(count "f").getD 0, (count "s").getD 0, count "w", has "i"⟩
          let ending := if has "z" then '\x00' else '\n'
          let lines := found.splitOn ending
          let groups := u.groups (if lines.getLast? = some [] then lines.dropLast else lines)
          let kept := groups.filter fun g =>
            let many := g.length > 1
            (!(has "d" || has "D") || many) && (!has "u" || !many)
          let written :=
            if has "D" then separatedGroups ((given.last? "D").getD []).toText kept
            else if has "group" then
              let how := ((given.last? "group").getD []).toText
              separatedGroups (if how = "" then "separate" else how) groups
            else
              kept.map fun g =>
                (if has "c" then rightAligned 7 (Octets.ofNat g.length) ++ [' '] else []) ++ g.headD []
          let all := written.flatMap (· ++ [ending])
          match operands.drop 1 with
          | [] => Act.put all
          | path :: _ =>
            let s ← get
            match s.openPath path .write with
            | .error e => fail (Quote.ifNeeded path ++ text (": " ++ errorText e))
            | .ok (s, stream) =>
              match s.toWorld.write stream all with
              | .ok w => set { s with toWorld := w }
              | .error _ => set s

/-- What has been seen of two texts while they are compared: whether lines had no partner, and which
texts have turned out not to be sorted. -/
structure Comparison where
  unpaired : Bool
  warned : List Nat

/-- Two sorted texts that are compared line by line. -/
structure LineComparison where
  shown : List Bool
  delimiter : Octets
  ending : Char
  checks : Option Bool

/-- Writes a line in its column. -/
def LineComparison.put (c : LineComparison) (column : Nat) (line : Octets) : Act Unit := do
  if (c.shown[column]?).getD false then
    let gaps := ((c.shown.take column).filter id).length
    Act.put ((List.replicate gaps c.delimiter).flatten ++ line ++ [c.ending])

/-- Complains of a text that is not sorted, once, if that has come to count. -/
def LineComparison.check (c : LineComparison) (p : Comparison) (file : Nat)
    (before after : Option Octets) : Act Comparison := do
  let counts := c.checks.getD p.unpaired
  match before, after with
  | some a, some b =>
    if counts && !p.warned.contains file && compareOctets a b = .gt then
      fail (text "file " ++ Octets.ofNat file ++ text " is not in sorted order")
      return { p with warned := file :: p.warned }
    else return p
  | _, _ => return p

/-- Compares two texts. The lines that came before the first ones are kept to see whether the texts are
sorted. The first argument bounds the number of steps. -/
def LineComparison.run (c : LineComparison) : Nat → Comparison → (List Octets × List Octets) →
    (List Octets × List Octets) → List Nat → Act (Comparison × List Nat)
  | 0, p, _, _, totals => return (p, totals)
  | bound + 1, p, (seen, others), (a, b), totals => do
    let order := match a, b with
      | [], [] => none
      | [], _ => some Ordering.gt
      | _, [] => some .lt
      | x :: _, y :: _ => some (compareOctets x y)
    match order with
    | none => return (p, totals)
    | some order =>
      let column := match order with
        | .lt => 0
        | .gt => 1
        | .eq => 2
      c.put column (if order = .gt then b.headD [] else a.headD [])
      let totals := totals.zipIdx.map fun (n, i) => if i = column then n + 1 else n
      let p := { p with unpaired := p.unpaired || order != .eq }
      let step := fun (p : Comparison) (file : Nat) (seen rest : List Octets) =>
        match rest with
        | line :: next :: _ => c.check p file (some line) (some next)
        | [line] => c.check p file seen.head? (some line)
        | [] => pure p
      let p ← if order != .gt then step p 1 seen a else pure p
      let p ← if order != .lt then step p 2 others b else pure p
      let (seen, a) := if order != .gt then (a.take 1 ++ seen, a.drop 1) else (seen, a)
      let (others, b) := if order != .lt then (b.take 1 ++ others, b.drop 1) else (others, b)
      c.run bound p (seen, others) (a, b) totals

def comm (words : List Octets) : Act Unit :=
  let table := OptionTable.of "123z"
    [("check-order", "check", .nothing), ("nocheck-order", "nocheck", .nothing),
      ("output-delimiter", "delimiter", .required), ("total", "total", .nothing),
      ("zero-terminated", "z", .nothing)]
  withOptions table words fun given operands => do
    match operands with
    | [] => missingOperand
    | [only] => misused 1 (text "missing operand after " ++ Quote.always only)
    | _ :: _ :: extra :: _ => extraOperand extra
    | [first, second] =>
      let ending := if given.has "z" then '\x00' else '\n'
      let lines := fun found : Octets =>
        let lines := found.splitOn ending
        if lines.getLast? = some [] then lines.dropLast else lines
      match ← content? first with
      | none => pure ()
      | some a =>
        match ← content? second with
        | none => pure ()
        | some b =>
          let a := lines a
          let b := lines b
          let checks := match given.lastOf? ["check", "nocheck"] with
            | some "check" => some true
            | some _ => some false
            | none => none
          let delimiter := (given.last? "delimiter").getD ['\t']
          let c : LineComparison :=
            ⟨[!given.has "1", !given.has "2", !given.has "3"],
              if delimiter = [] then ['\x00'] else delimiter, ending, checks⟩
          let (p, totals) ← c.run (a.length + b.length + 1) ⟨false, []⟩ ([], []) (a, b) [0, 0, 0]
          if given.has "total" then
            Act.put (List.intercalate c.delimiter (totals.map Octets.ofNat) ++ c.delimiter ++
              text "total" ++ [ending])
          if p.warned ≠ [] then fail (text "input is not in sorted order")

/-- How `join` takes lines apart and puts them together. -/
structure Join where
  separator : Option Char
  folds : Bool
  keys : Nat × Nat
  filler : Octets
  format : Option (List (Nat × Nat))
  deriving DecidableEq, Repr

def Join.fields (j : Join) (line : Octets) : List Octets :=
  match j.separator with
  | some c => line.splitOn c
  | none => (line.splitOnP isGap).filter (· ≠ [])

def Join.key (j : Join) (field : Nat) (line : Octets) : Octets :=
  let k := ((j.fields line)[field - 1]?).getD []
  if j.folds then k.map Char.toLower else k

/-- A line of output for lines of both texts, one of which may be missing. -/
def Join.line (j : Join) (a b : Option Octets) : Octets :=
  let gap := [j.separator.getD ' ']
  let first := (a.map j.fields).getD []
  let second := (b.map j.fields).getD []
  let fill := fun w : Octets => if w = [] then j.filler else w
  let keyOf := fun (fields : List Octets) (n : Nat) => (fields[n - 1]?).getD []
  let key := if a.isSome then keyOf first j.keys.1 else keyOf second j.keys.2
  let others := fun (fields : List Octets) (n : Nat) =>
    (fields.zipIdx.filter fun p => p.2 + 1 != n).map fun p => fill p.1
  match j.format with
  | none =>
    List.intercalate gap ([fill key] ++ others first j.keys.1 ++ others second j.keys.2)
  | some places =>
    List.intercalate gap (places.map fun (file, n) =>
      fill (if file = 0 then key else keyOf (if file = 1 then first else second) n))

/-- The lines at the start of a text with the key of the first. -/
def Join.block (j : Join) (field : Nat) (lines : List Octets) : List Octets :=
  match lines with
  | [] => []
  | first :: _ => lines.takeWhile fun line => j.key field line = j.key field first

/-- Joins two texts: the lines of output, each with where it comes from. The first argument bounds
the steps. -/
def Join.run (j : Join) : Nat → List Octets → List Octets → List (Nat × Octets)
  | 0, _, _ => []
  | bound + 1, a, b =>
    match a, b with
    | [], [] => []
    | x :: rest, [] => (1, j.line (some x) none) :: j.run bound rest []
    | [], y :: rest => (2, j.line none (some y)) :: j.run bound [] rest
    | x :: restA, y :: restB =>
      match compareOctets (j.key j.keys.1 x) (j.key j.keys.2 y) with
      | .lt => (1, j.line (some x) none) :: j.run bound restA (y :: restB)
      | .gt => (2, j.line none (some y)) :: j.run bound (x :: restA) restB
      | .eq =>
        let blockA := j.block j.keys.1 (x :: restA)
        let blockB := j.block j.keys.2 (y :: restB)
        (blockA.flatMap fun m => blockB.map fun n => (0, j.line (some m) (some n))) ++
          j.run bound ((x :: restA).drop blockA.length) ((y :: restB).drop blockB.length)

/-- The first line whose key comes before that of the line before it, and its number. -/
def Join.disorder? (j : Join) (field : Nat) : Nat → List Octets → Option (Nat × Octets)
  | n, a :: b :: rest =>
    if compareOctets (j.key field a) (j.key field b) = .gt then some (n + 1, b)
    else disorder? j field (n + 1) (b :: rest)
  | _, _ => none

def formatPlaces (word : Octets) : List (Nat × Nat) :=
  ((word.splitOnP fun c => c == ',' || c == ' ').filter (· ≠ [])).filterMap fun place =>
    match place.splitOn '.' with
    | [['0']] => some (0, 0)
    | [file, n] =>
      match decimal? file, decimal? n with
      | some file, some n => some (file, n)
      | _, _ => none
    | _ => none

def join (words : List Octets) : Act Unit :=
  let table := OptionTable.of "a:e:i1:2:j:o:t:v:z"
    [("ignore-case", "i", .nothing), ("check-order", "check", .nothing),
      ("nocheck-order", "nocheck", .nothing), ("header", "header", .nothing)]
  withOptions table words fun given operands => do
    match operands with
    | [] => missingOperand
    | [only] => misused 1 (text "missing operand after " ++ Quote.always only)
    | _ :: _ :: extra :: _ => extraOperand extra
    | [first, second] =>
      let number := fun key => (given.last? key).bind decimal?
      let both := (number "j").getD 1
      let j : Join :=
        ⟨(given.last? "t").map fun w => w.headD '\n', given.has "i",
          ((number "1").getD both, (number "2").getD both), (given.last? "e").getD [],
          (given.last? "o").map formatPlaces⟩
      match ← content? first with
      | none => pure ()
      | some a =>
        match ← content? second with
        | none => pure ()
        | some b =>
          let a := a.lines
          let b := b.lines
          let only := given.all "v"
          let unpaired := given.all "a" ++ only
          let rows := j.run (a.length + b.length + 1) a b
          let shows := fun n : Nat => if n = 0 then only = [] else unpaired.contains (Octets.ofNat n)
          putLines ((rows.filter fun p => shows p.1).map (·.2))
          let counts := rows.any fun p => p.1 != 0
          if counts && !given.has "nocheck" then
            let wrong := [(first, j.disorder? j.keys.1 1 a), (second, j.disorder? j.keys.2 1 b)]
            for (path, found) in wrong do
              if let some (n, line) := found then
                fail (path ++ ':' :: Octets.ofNat n ++ text ": is not sorted: " ++ line)
            if wrong.any fun p => p.2.isSome then fail (text "input is not in sorted order")

/-- What comes before what, as pairs, and the names in the order in which they are still to be
written. The first argument bounds their number. -/
def topological (pairs : List (Octets × Octets)) : Nat → List Octets → List Octets → List Octets
  | 0, _, _ => []
  | _, [], _ => []
  | bound + 1, name :: queue, done =>
    let done := name :: done
    let isFree := fun other : Octets => (pairs.filter fun p => p.2 = other).all fun p => done.contains p.1
    let successors := ((pairs.filter fun p => p.1 = name).map (·.2)).reverse
    let ready := (successors.foldl (fun found other =>
      if found.contains other || queue.contains other || done.contains other then found
      else if isFree other then found ++ [other] else found) ([] : List Octets))
    name :: topological pairs bound (queue ++ ready) done

/-- The pairs of words of a text, if there is an even number of them. -/
def pairsOf : List Octets → Option (List (Octets × Octets))
  | [] => some []
  | [_] => none
  | a :: b :: rest => (pairsOf rest).map ((a, b) :: ·)

def tsort (words : List Octets) : Act Unit :=
  withOptions (.of "" []) words fun _ operands => do
    match operands with
    | _ :: extra :: _ => extraOperand extra
    | _ =>
      let path := operands.headD ['-']
      match ← content? path with
      | none => pure ()
      | some found =>
        match pairsOf ((found.splitOnP isGap).filter (· ≠ [])) with
        | none => fail (path ++ text ": input contains an odd number of tokens")
        | some pairs =>
          let names := (pairs.flatMap fun p => [p.1, p.2]).foldl
            (fun known name => if known.contains name then known else known ++ [name]) ([] : List Octets)
          let sorted := names.mergeSort Octets.isLe
          let links := pairs.filter fun p => p.1 ≠ p.2
          let free := sorted.filter fun name => links.all fun p => p.2 ≠ name
          let order := topological links (names.length + 1) free []
          putLines order
          let left := sorted.filter fun name => !order.contains name
          if left ≠ [] then
            fail (path ++ text ": input contains a loop:")
            for name in left do say name
            putLines left

def shuf (words : List Octets) : Act Unit :=
  let table := OptionTable.of "ei:n:o:rz"
    [("echo", "e", .nothing), ("input-range", "i", .required), ("head-count", "n", .required),
      ("repeat", "r", .nothing), ("random-source", "source", .required)]
  withOptions table words fun given operands => do
    let limit := (given.last? "n").bind decimal?
    let put := fun lines : List Octets => putLines ((limit.map lines.take).getD lines)
    match given.last? "i" with
    | some range =>
      match (range.splitOn '-').mapM decimal? with
      | some [low, high] =>
        if low ≤ high then put ((List.range (high + 1 - low)).map fun i => Octets.ofNat (low + i))
        else failOn "invalid input range: " range ""
      | _ => failOn "invalid input range: " range ""
    | none =>
      if given.has "e" then put operands
      else
        match ← content? (operands.headD ['-']) with
        | some found => put found.lines
        | none => pure ()

/-- The prime factors of a number from a divisor on. The first argument bounds the steps. -/
def primeFactors : Nat → Nat → Nat → List Nat
  | 0, _, n => [n]
  | bound + 1, d, n =>
    if n ≤ 1 then []
    else if n < d * d then [n]
    else if n % d = 0 then d :: primeFactors bound d (n / d)
    else primeFactors bound (if d = 2 then 3 else d + 2) n

def factor (words : List Octets) : Act Unit :=
  withOptions (.of "" []) words fun _ operands => do
    let numbers ←
      if operands = [] then do
        pure ((((← contentOf ['-']).toOption.getD []).splitOnP isGap).filter (· ≠ []))
      else pure operands
    for word in numbers do
      match decimal? (if word.head? = some '+' then word.drop 1 else word) with
      | some n =>
        let found := primeFactors (min n 2000000 + 64) 2 n
        Act.putLine (Octets.ofNat n ++ ':' :: found.flatMap fun p => ' ' :: Octets.ofNat p)
      | none => fail (Quote.always word ++ text " is not a valid positive integer")

end BitcodeReplay.Tool
