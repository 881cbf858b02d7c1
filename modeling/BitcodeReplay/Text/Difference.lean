/-!
Which lines of two texts differ: a shortest way to get from the one to the other by dropping lines and
putting in others. It is found from both ends at once, and then moved to where a reader expects it.
-/

namespace BitcodeReplay.Text.Difference

/-- Lines as numbers; lines that count as the same have the same. -/
abbrev Lines := Array Nat

/-- Which lines of a text have changed. -/
abbrev Marks := Array Bool

/-- A part of two texts. -/
structure Box where
  left : Nat
  right : Nat
  top : Nat
  bottom : Nat
  deriving DecidableEq, Repr

namespace Box

/-- How many lines are the same from two places on. The first argument bounds them. -/
def ahead (m : Box) (a b : Lines) : Nat → Nat → Nat → Nat
  | 0, _, _ => 0
  | bound + 1, x, y =>
    if x < m.right && y < m.bottom && a[x]? == b[y]? then ahead m a b bound (x + 1) (y + 1) + 1
    else 0

/-- How many lines are the same in front of two places. The first argument bounds them. -/
def behind (m : Box) (a b : Lines) : Nat → Nat → Nat → Nat
  | 0, _, _ => 0
  | bound + 1, x, y =>
    if m.left < x && m.top < y && a[x - 1]? == b[y - 1]? then
      behind m a b bound (x - 1) (y - 1) + 1
    else 0

/-- How many lines a part has, on both sides. -/
def size (m : Box) : Nat := (m.right - m.left) + (m.bottom - m.top)

/-- The part without the lines that are the same at its start and at its end. -/
def trimmed (m : Box) (a b : Lines) : Box :=
  let start := m.ahead a b m.size m.left m.top
  let m := { m with left := m.left + start, top := m.top + start }
  let rest := m.behind a b m.size m.right m.bottom
  { m with right := m.right - rest, bottom := m.bottom - rest }

end Box

/-- How far a search has come on each diagonal, from the one `low` to the one `high`. Diagonal `d` is
kept at place `d - first`. -/
structure Front where
  reached : Array Int
  first : Int
  low : Int
  high : Int

namespace Front

def at? (f : Front) (d : Int) : Int := (f.reached[(d - f.first).toNat]?).getD 0

def put (f : Front) (d x : Int) : Front :=
  { f with reached := f.reached.setIfInBounds (d - f.first).toNat x }

/-- Goes on to the next diagonals within limits; `beyond` is what stands outside. -/
def widen (f : Front) (least most beyond : Int) : Front :=
  let f :=
    if least < f.low then { f.put (f.low - 2) beyond with low := f.low - 1 }
    else { f with low := f.low + 1 }
  if f.high < most then { f.put (f.high + 2) beyond with high := f.high + 1 }
  else { f with high := f.high - 1 }

/-- Whether a diagonal has been reached. -/
def has (f : Front) (d : Int) : Bool := f.low ≤ d && d ≤ f.high

/-- How many diagonals are looked at in one step: every other one. -/
def count (f : Front) : Nat := ((f.high - f.low) / 2 + 1).toNat

end Front

namespace Box

/-- One step of the search from the start, on so many diagonals from one down. If `meets`, it ends
where it meets the search from the end. -/
def stepDown (m : Box) (a b : Lines) (meets : Bool) (other : Front) :
    Nat → Int → Front → Front × Option (Nat × Nat)
  | 0, _, f => (f, none)
  | count + 1, d, f =>
    let below := f.at? (d - 1)
    let above := f.at? (d + 1)
    let start := if below < above then above else below + 1
    let x := start + m.ahead a b m.size start.toNat (start - d).toNat
    let f := f.put d x
    if meets && other.has d && other.at? d ≤ x then (f, some (x.toNat, (x - d).toNat))
    else stepDown m a b meets other count (d - 2) f

/-- One step of the search from the end. -/
def stepUp (m : Box) (a b : Lines) (meets : Bool) (other : Front) :
    Nat → Int → Front → Front × Option (Nat × Nat)
  | 0, _, f => (f, none)
  | count + 1, d, f =>
    let below := f.at? (d - 1)
    let above := f.at? (d + 1)
    let start := if below < above then below else above - 1
    let x := start - m.behind a b m.size start.toNat (start - d).toNat
    let f := f.put d x
    if meets && other.has d && x ≤ other.at? d then (f, some (x.toNat, (x - d).toNat))
    else stepUp m a b meets other count (d - 2) f

/-- Steps of both searches until they meet. The first argument bounds the steps. -/
def search (m : Box) (a b : Lines) (odd : Bool) : Nat → Front → Front → Nat × Nat
  | 0, _, _ => (m.left, m.top)
  | bound + 1, down, up =>
    let least : Int := (m.left : Int) - m.bottom
    let most : Int := (m.right : Int) - m.top
    let down := down.widen least most (-1)
    match m.stepDown a b odd up down.count down.high down with
    | (_, some middle) => middle
    | (down, none) =>
      let up := up.widen least most (m.right + m.bottom + 1)
      match m.stepUp a b (!odd) down up.count up.high up with
      | (_, some middle) => middle
      | (up, none) => search m a b odd bound down up

/-- A point on a shortest way through a part, about in its middle. -/
def middle (m : Box) (a b : Lines) : Nat × Nat :=
  let start : Int := (m.left : Int) - m.top
  let stop : Int := (m.right : Int) - m.bottom
  let first : Int := (m.left : Int) - m.bottom - 1
  let front := fun (d : Int) (x : Nat) =>
    (⟨Array.replicate (m.size + 3) 0, first, d, d⟩ : Front).put d x
  m.search a b ((start - stop) % 2 != 0) (m.size + 1) (front start m.left) (front stop m.right)

end Box

/-- Marks the lines at some places as changed. -/
def markAll (marks : Marks) (places : Array Nat) (start stop : Nat) : Marks :=
  (List.range (stop - start)).foldl
    (fun marks i => marks.setIfInBounds ((places[start + i]?).getD marks.size) true) marks

/-- Marks the lines of a part that have changed, given the places of its lines. The first argument
bounds how often it is cut in two. -/
def compareWithin (a b placesA placesB : Array Nat) : Nat → Box → Marks × Marks → Marks × Marks
  | 0, _, marks => marks
  | bound + 1, m, (old, new) =>
    let m := m.trimmed a b
    if m.left = m.right then (old, markAll new placesB m.top m.bottom)
    else if m.top = m.bottom then (markAll old placesA m.left m.right, new)
    else
      let (x, y) := m.middle a b
      compareWithin a b placesA placesB bound { m with left := x, top := y }
        (compareWithin a b placesA placesB bound { m with right := x, bottom := y } (old, new))

/-- What is known of a line before texts are compared: whether it stays in, is left out because no
line of the other text is the same, or may be left out because there are so many. -/
inductive Verdict where
  | stays
  | leaves
  | mayLeave
  deriving DecidableEq, Repr, Inhabited

/-- How often each number stands in a text. -/
def counts (classes : Nat) (lines : Lines) : Array Nat :=
  lines.foldl (fun n c => n.modify c (· + 1)) (Array.replicate classes 0)

/-- Above which number of lines a line may be left out. The first argument bounds the steps. -/
def many : Nat → Nat → Nat → Nat
  | 0, _, n => n
  | bound + 1, rest, n => if rest / 4 = 0 then n else many bound (rest / 4) (2 * n)

def verdict (limit matching : Nat) : Verdict :=
  if matching = 0 then .leaves else if limit < matching then .mayLeave else .stays

/-- Lets the lines at some places that may leave stay. -/
def keep (v : Array Verdict) (places : List Nat) : Array Verdict :=
  places.foldl (fun v i => v.modify i fun x => if x = .mayLeave then .stays else x) v

/-- The length from which a row of lines that may leave is kept, by the length of the run. The first
argument bounds the steps. -/
def leastRow : Nat → Nat → Nat → Nat
  | 0, _, n => n
  | bound + 1, rest, n => if rest / 4 = 0 then n else leastRow bound (rest / 4) (2 * n)

/-- Keeps each row of at least so many lines of a run that may leave. `row` are the places of the one
that is being read. -/
def keepRows (least : Nat) (v : Array Verdict) : List Nat → List Nat → Array Verdict
  | row, [] => if least ≤ row.length then keep v row else v
  | row, i :: rest =>
    if v[i]? = some .mayLeave then keepRows least v (i :: row) rest
    else keepRows least (if least ≤ row.length then keep v row else v) [] rest

/-- Keeps lines that may leave from an end of a run on, until three in a row leave, or one does behind
the first eight. -/
def keepEnd (v : Array Verdict) : Nat → Nat → List Nat → Array Verdict
  | _, _, [] => v
  | seen, row, i :: rest =>
    match v[i]? with
    | some .leaves =>
      if 8 ≤ seen || row = 2 then v else keepEnd v (seen + 1) (row + 1) rest
    | _ => keepEnd (keep v [i]) (seen + 1) 0 rest

/-- How many lines from a place on do not stay. The first argument bounds them. -/
def runLength (v : Array Verdict) : Nat → Nat → Nat
  | 0, _ => 0
  | bound + 1, i =>
    if (v[i]?).any (· != .stays) then runLength v bound (i + 1) + 1 else 0

/-- Settles what becomes of lines that may leave: they do so only in the middle of a run of lines that
leave. The first argument bounds the places. -/
def settle : Nat → Nat → Array Verdict → Array Verdict
  | 0, _, v => v
  | bound + 1, i, v =>
    match v[i]? with
    | none => v
    | some .stays => settle bound (i + 1) v
    | some .mayLeave => settle bound (i + 1) (v.setIfInBounds i .stays)
    | some .leaves =>
      let run := (List.range (runLength v v.size i)).map (i + ·)
      let trailing := run.reverse.takeWhile fun k => v[k]? = some .mayLeave
      let v := keep v trailing
      let run := run.take (run.length - trailing.length)
      let provisional := (run.filter fun k => v[k]? = some .mayLeave).length
      if run.length < 4 * provisional then settle bound (i + 1) (keep v run)
      else
        let least := leastRow run.length (run.length / 4) 1 + 1
        let v := keepRows least v [] run
        let v := keepEnd v 0 0 run
        settle bound (i + run.length) (keepEnd v 0 0 run.reverse)

/-- The places of the lines of a text that are compared with those of another. -/
def comparedPlaces (classes : Nat) (lines other : Lines) : Array Nat :=
  let found := counts classes other
  let limit := many lines.size (lines.size / 64) 5
  let verdicts := settle (lines.size + 1) 0
    (lines.map fun c => verdict limit ((found[c]?).getD 0))
  (Array.range lines.size).filter fun i => verdicts[i]? == some .stays

/-- Marks with a place on either side that is never changed. -/
def fenced (marks : Marks) : Marks := #[false] ++ marks ++ #[false]

def isSet (marks : Marks) (i : Nat) : Bool := (marks[i]?).getD false

/-- The first place from one on that is not set. The first argument bounds the steps. -/
def firstClear (marks : Marks) : Nat → Nat → Nat
  | 0, i => i
  | bound + 1, i => if isSet marks i then firstClear marks bound (i + 1) else i

/-- The last place up to one that is not set. The first argument bounds the steps. -/
def lastClear (marks : Marks) : Nat → Nat → Nat
  | 0, i => i
  | bound + 1, i => if isSet marks i then lastClear marks bound (i - 1) else i

/-- A run of changed lines that is being moved: its start and its end, the place in the other text
that belongs to the end, and the last end at which lines of the other text have changed too. -/
structure Run where
  marks : Marks
  start : Nat
  stop : Nat
  other : Nat
  aligned : Option Nat

namespace Run

/-- The number of the line at a place behind a fence. -/
def line? (lines : Lines) (i : Nat) : Option Nat := if i = 0 then none else lines[i - 1]?

/-- Moves the run towards the start as long as the line in front of it is its last. The first argument
bounds the steps. -/
def back (lines : Lines) (other : Marks) : Nat → Run → Run
  | 0, r => r
  | bound + 1, r =>
    if 1 < r.start && line? lines (r.start - 1) == line? lines (r.stop - 1) then
      let marks := (r.marks.setIfInBounds (r.start - 1) true).setIfInBounds (r.stop - 1) false
      back lines other bound
        { r with
          marks := marks
          start := lastClear marks marks.size (r.start - 2) + 1
          stop := r.stop - 1
          other := lastClear other other.size (r.other - 1) }
    else r

/-- Moves the run towards the end as long as the line behind it is its first. -/
def forth (lines : Lines) (other : Marks) : Nat → Run → Run
  | 0, r => r
  | bound + 1, r =>
    if r.stop ≤ lines.size && line? lines r.start == line? lines r.stop then
      let marks := (r.marks.setIfInBounds r.start false).setIfInBounds r.stop true
      let stop := firstClear marks marks.size (r.stop + 1)
      let next := firstClear other other.size (r.other + 1)
      forth lines other bound
        { r with
          marks := marks
          start := r.start + 1
          stop := stop
          other := next
          aligned := if r.other + 1 < next then some stop else r.aligned }
    else r

/-- Moves the run to and fro until it does not merge with others any more. -/
def merged (lines : Lines) (other : Marks) : Nat → Run → Run
  | 0, r => r
  | bound + 1, r =>
    let length := r.stop - r.start
    let r := r.back lines other lines.size
    let r := { r with aligned := if isSet other (r.other - 1) then some r.stop else none }
    let r := r.forth lines other lines.size
    if r.stop - r.start = length then r else merged lines other bound r

/-- Moves the run back to the last place at which lines of the other text have changed too. -/
def alignedBack (other : Marks) : Nat → Run → Run
  | 0, r => r
  | bound + 1, r =>
    if r.aligned.any (· < r.stop) then
      alignedBack other bound
        { r with
          marks := (r.marks.setIfInBounds (r.start - 1) true).setIfInBounds (r.stop - 1) false
          start := r.start - 1
          stop := r.stop - 1
          other := lastClear other other.size (r.other - 1) }
    else r

end Run

/-- Moves runs of changed lines from a place on, with the place in the other text that belongs to it.
The first argument bounds the steps. -/
def shift (lines : Lines) (other : Marks) : Nat → Nat → Nat → Marks → Marks
  | 0, _, _, marks => marks
  | bound + 1, i, j, marks =>
    if lines.size < i then marks
    else if !isSet marks i then shift lines other bound (i + 1) (firstClear other other.size j + 1) marks
    else
      let stop := firstClear marks marks.size i
      let run := Run.merged lines other (lines.size + 1)
        ⟨marks, i, stop, firstClear other other.size j, none⟩
      let run := run.alignedBack other lines.size
      shift lines other bound run.stop run.other run.marks

def shifted (lines : Lines) (marks other : Marks) : Marks :=
  (shift lines (fenced other) (2 * lines.size + 2) 1 1 (fenced marks)).extract 1 (lines.size + 1)

/-- A place in which texts differ: where the lines stand that are dropped and those that are put in,
and how many they are. -/
structure Change where
  old : Nat
  new : Nat
  dropped : Nat
  added : Nat
  deriving DecidableEq, Repr

/-- The changes from two places on. The first argument bounds the steps. -/
def changesFrom (old new : Marks) : Nat → Nat → Nat → List Change
  | 0, _, _ => []
  | bound + 1, i, j =>
    if old.size ≤ i && new.size ≤ j then []
    else
      let stopOld := firstClear old old.size i
      let stopNew := firstClear new new.size j
      let rest := changesFrom old new bound (stopOld + 1) (stopNew + 1)
      if stopOld = i && stopNew = j then rest
      else ⟨i, j, stopOld - i, stopNew - j⟩ :: rest

/-- The changes between two texts whose lines have numbers below `classes`. With `minimal`, no line is
left out beforehand. -/
def changes (classes : Nat) (minimal : Bool) (a b : Lines) : List Change :=
  let places := fun lines other : Lines =>
    if minimal then Array.range lines.size else comparedPlaces classes lines other
  let placesA := places a b
  let placesB := places b a
  let pick := fun (lines : Lines) (places : Array Nat) => places.map fun i => (lines[i]?).getD 0
  let unmarked := fun (lines : Lines) (places : Array Nat) =>
    places.foldl (fun marks i => marks.setIfInBounds i false) (Array.replicate lines.size true)
  let (old, new) := compareWithin (pick a placesA) (pick b placesB) placesA placesB
    (placesA.size + placesB.size + 1) ⟨0, placesA.size, 0, placesB.size⟩
    (unmarked a placesA, unmarked b placesB)
  let old := shifted a old new
  let new := shifted b new old
  changesFrom old new (a.size + b.size + 1) 0 0

end BitcodeReplay.Text.Difference
