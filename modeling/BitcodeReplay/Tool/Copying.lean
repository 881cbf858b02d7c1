import BitcodeReplay.Tool.Basic

/-!
The tools that copy text: all of it, its start or its end, or to several places.
-/

namespace BitcodeReplay.Tool

open Shell

/-- What `cat` does to lines. -/
structure Display where
  numbers : Bool
  numbersFilled : Bool
  squeezes : Bool
  marksEnds : Bool
  marksTabs : Bool
  marksOthers : Bool
  deriving DecidableEq, Repr

/-- Where a display is: the number of the last line, whether a line has been begun, and how many
empty lines came before. -/
structure DisplayState where
  number : Nat
  begun : Bool
  empties : Nat

/-- A character as it is shown. -/
def Display.char (d : Display) (c : Char) : Octets :=
  if c = '\t' then (if d.marksTabs then ['^', 'I'] else ['\t'])
  else if !d.marksOthers then [c]
  else
    let n := c.toNat
    let low := fun n : Nat =>
      if n < 32 then ['^', Char.ofNat (n + 64)] else if n = 127 then ['^', '?'] else [Char.ofNat n]
    if n < 128 then low n else 'M' :: '-' :: low (n - 128)

/-- Shows a line with its line feed, if it has one. -/
def Display.line (d : Display) (s : DisplayState) (line : Octets) : Octets × DisplayState :=
  let closed := line.getLast? = some '\n'
  let body := if closed then line.dropLast else line
  let isEmpty := body = [] && !s.begun
  if isEmpty && closed && d.squeezes && 1 ≤ s.empties then ([], { s with empties := s.empties + 1 })
  else
    let isNumbered := !s.begun && (if d.numbersFilled then !(body = []) else d.numbers)
    let number := if isNumbered then s.number + 1 else s.number
    let label := if isNumbered then rightAligned 6 (.ofNat number) ++ ['\t'] else []
    let ending := if !closed then [] else if d.marksEnds then ['$', '\n'] else ['\n']
    (label ++ body.flatMap d.char ++ ending,
      ⟨number, !closed, if isEmpty && closed then s.empties + 1 else 0⟩)

def Display.text (d : Display) (s : DisplayState) (t : Octets) : Octets × DisplayState :=
  let (shown, s) := (rawLines t).foldl
    (fun (shown, s) line => let (text, s) := d.line s line; (text :: shown, s))
    (([], s) : List Octets × DisplayState)
  (shown.reverse.flatten, s)

/-- Whether a stream reads the file that another writes, behind what has been written. -/
def isOwnOutput (s : Session) (stream : Nat) : Bool :=
  match s.streams[stream]?, (s.channels.lookup 1).bind fun n => s.streams[n]? with
  | some a, some b =>
    match a.device, b.device with
    | .file l, .file m => l == m && !((s.toWorld.pending stream).toOption.getD []).isEmpty
    | _, _ => false
  | _, _ => false

/-- Shows what is read from a stream, as it comes. The last argument bounds the parts. -/
def putDisplayed (d : Display) (stream : Nat) (state : DisplayState) :
    Nat → Act (Except InputFailure DisplayState)
  | 0 => return .ok state
  | bound + 1 => do
    Act.awaitInput stream fun p => 0 < p.size
    let s ← get
    match s.toWorld.pending stream with
    | .error e => return .error (.unreadable e)
    | .ok [] => return .ok state
    | .ok found =>
      set (s.modifyWorld fun w => w.skip stream found.length)
      let (shown, next) := d.text state found
      Act.put shown
      if (← get).flow = .running then putDisplayed d stream next bound else return .ok next

def cat (words : List Octets) : Act Unit :=
  let table := OptionTable.of "benstuvAET"
    [("number-nonblank", "b", .nothing), ("number", "n", .nothing), ("squeeze-blank", "s", .nothing),
      ("show-nonprinting", "v", .nothing), ("show-ends", "E", .nothing), ("show-tabs", "T", .nothing),
      ("show-all", "A", .nothing)]
  withOptions table words fun given operands => do
    let has := given.has
    let d : Display :=
      ⟨has "n", has "b", has "s", has "E" || has "e" || has "A", has "T" || has "t" || has "A",
        has "v" || has "e" || has "t" || has "A"⟩
    if ((← get).channels.lookup 1).isNone then fail (text "standard output: Bad file descriptor")
    else
      let mut state : DisplayState := ⟨0, false, 0⟩
      for path in orInput operands do
        let complain := fun reason : String =>
          fail (Quote.ifNeeded path ++ text (": " ++ reason))
        match ← openInput path with
        | .error e => complain e.reason
        | .ok stream =>
          if isOwnOutput (← get) stream then complain "input file is output file"
          else
            match ← putDisplayed d stream state Act.endless with
            | .error e => complain e.reason
            | .ok next => state := next

/-- A part of a text: so many lines or bytes at its start or its end, or all but those. -/
structure Portion where
  bytes : Bool
  count : Nat
  others : Bool
  deriving DecidableEq, Repr

/-- The portion at the start of a text. -/
def Portion.start (p : Portion) (ending : Char) (t : Octets) : Octets :=
  if p.bytes then (if p.others then t.take (t.length - p.count) else t.take p.count)
  else
    let ends := t.count ending
    let isOpen := t ≠ [] && t.getLast? ≠ some ending
    let lines := if isOpen then ends + 1 else ends
    let wanted := if p.others then lines - p.count else p.count
    firstLines ending wanted t
where
  /-- So many lines from the start of a text. -/
  firstLines (ending : Char) : Nat → Octets → Octets
    | 0, _ => []
    | _ + 1, [] => []
    | n + 1, c :: rest => c :: firstLines ending (if c = ending then n else n + 1) rest

/-- The portion at the end of a text. With `others`, that is all from the place of that number on. -/
def Portion.end (p : Portion) (ending : Char) (t : Octets) : Octets :=
  let drop := if p.others then p.count - 1
    else
      let all := if p.bytes then t.length
        else if t ≠ [] && t.getLast? ≠ some ending then t.count ending + 1 else t.count ending
      all - p.count
  let before := Portion.start ⟨p.bytes, drop, false⟩ ending t
  t.drop before.length

/-- The words of an old form in which a sign and digits stand for a count. -/
def countWords (sign : Char) (words : List Octets) : List Octets :=
  match words with
  | (s :: c :: more) :: rest =>
    if s = sign && Text.isDigit c then
      let digits := (c :: more).takeWhile Text.isDigit
      let letters := (c :: more).drop digits.length
      let start := if sign = '+' then '+' :: digits else digits
      let option := if letters.contains 'c' then 'c' else 'n'
      ['-', option] :: start :: (letters.filter fun c => c == 'q' || c == 'v').map (['-', ·]) ++ rest
    else words
  | _ => words

/-- What an operand is called in a heading. -/
def heading (first : Bool) (path : Octets) : Octets :=
  let name := if path = ['-'] then text "standard input" else path
  (if first then [] else ['\n']) ++ text "==> " ++ name ++ text " <==\n"

/-- The portion that the options ask for; a complaint if a number is none. The sign is the one that
turns a portion round. -/
def portionOf (sign : Char) (given : Given) : Act (Option Portion) := do
  let mut portion : Portion := ⟨false, 10, false⟩
  for (key, word) in given do
    if key = "n" || key = "c" then
      let turned := word.head? = some sign
      let rest := if word.head?.any fun c => c == '-' || c == '+' then word.drop 1 else word
      match count? rest with
      | some n => portion := ⟨key == "c", n, turned⟩
      | none =>
        let what := if key = "c" then "bytes" else "lines"
        failOn ("invalid number of " ++ what ++ ": ") word ""
        return none
  return some portion

def portionTable : OptionTable :=
  .of "n:c:qvzfF"
    [("lines", "n", .required), ("bytes", "c", .required), ("quiet", "q", .nothing),
      ("silent", "q", .nothing), ("verbose", "v", .nothing), ("zero-terminated", "z", .nothing),
      ("follow", "f", .optional)]

/-- How much is looked at of an input that has no end. -/
def lookAhead (p : Portion) : Nat := if p.bytes && !p.others then p.count else 0

/-- Writes a portion of each operand. -/
def putPortions (given : Given) (operands : List Octets)
    (enough : Pipe → Bool) (select : Session → Nat → Octets → Octets)
    (consumes : Octets → Octets → Nat) : Act Unit := do
  let many := orInput operands
  let headed := given.lastOf? ["q", "v"]
  let shows := headed = some "v" || (headed.isNone && many.length > 1)
  let mut first := true
  for path in many do
    let name := if path = ['-'] then text "standard input" else path
    match ← openInput path with
    | .error (.unopened e) => failOn "cannot open " name (" for reading: " ++ errorText e)
    | .error (.unreadable e) => failOn "cannot open " name (" for reading: " ++ e.message)
    | .ok stream =>
      if shows then Act.put (heading first path)
      first := false
      Act.awaitInput stream enough
      let s ← get
      match s.toWorld.pending stream with
      | .error e => failOn "error reading " name (": " ++ e.message)
      | .ok found =>
        let chosen := select s stream found
        let used := if s.toWorld.canRewind stream then consumes found chosen else found.length
        set (s.modifyWorld fun w => w.skip stream used)
        Act.put chosen

def head (words : List Octets) : Act Unit :=
  withOptions portionTable (countWords '-' words) fun given operands => do
    match ← portionOf '-' given with
    | none => pure ()
    | some p =>
      let ending := if given.has "z" then '\x00' else '\n'
      let enough := fun pipe : Pipe =>
        if p.others || ending != '\n' then Act.endless ≤ pipe.size
        else if p.bytes then p.count ≤ pipe.size
        else pipe.hasLines p.count
      putPortions given operands enough
        (fun s stream found =>
          p.start ending (if found = [] then s.toWorld.peek stream (lookAhead p) else found))
        fun _ chosen => chosen.length

def tail (words : List Octets) : Act Unit :=
  withOptions portionTable (countWords '+' (countWords '-' words)) fun given operands => do
    match ← portionOf '+' given with
    | none => pure ()
    | some p =>
      let ending := if given.has "z" then '\x00' else '\n'
      putPortions given operands (Act.endless ≤ ·.size) (fun _ _ found => p.end ending found)
        fun found _ => found.length

def tee (words : List Octets) : Act Unit :=
  withOptions (.of "aip" [("append", "a", .nothing), ("ignore-interrupts", "i", .nothing)]) words
    fun given operands => do
      let mut streams := []
      for path in operands do
        match ← Act.openPath path (if given.has "a" then .append else .write) with
        | .ok stream => streams := streams ++ [stream]
        | .error e => fail (Quote.ifNeeded path ++ text (": " ++ errorText e))
      match ← openInput ['-'] with
      | .error _ => pure ()
      | .ok input =>
        let _ ← takeParts input
          (fun found => do
            Act.put found
            for stream in streams do Act.writeTo stream found) Act.endless

/-- Writes a line again and again, until nobody reads it. -/
def repeatLine (line : Octets) : Nat → Act Unit
  | 0 => pure ()
  | bound + 1 => do
    Act.put line
    Act.pass
    let s ← get
    if s.flow = .running && s.failed.isNone then repeatLine line bound

def yes (words : List Octets) : Act Unit :=
  let line := (if words = [] then ['y'] else List.intercalate [' '] words) ++ ['\n']
  repeatLine (List.replicate (8192 / line.length + 1) line).flatten Act.endless

end BitcodeReplay.Tool
