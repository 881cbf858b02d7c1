import BitcodeReplay.Tool.Sed.Editor
import BitcodeReplay.Tool.Sed.Reader
import BitcodeReplay.Tool.Starting
import BitcodeReplay.Tool.Basic

/-!
The tool that edits lines by a script: it reads them one by one, runs the commands of the script for
each, and writes what is left of it.
-/

namespace BitcodeReplay.Tool

open Shell

namespace Sed

/-- A text that is worked on, and whether it is ended where it is written. -/
structure Held where
  text : Octets
  ended : Bool
  deriving DecidableEq, Repr

/-- A text with another behind its end, which decides how both are ended. -/
def Held.append (ending : Char) (a b : Held) : Held :=
  ⟨a.text ++ ending :: b.text, b.ended⟩

/-- A file that is read: its name, its stream, the lines that are left, and how much of it has been
taken. -/
structure Input where
  name : Octets
  stream : Nat
  lines : List Octets
  taken : Nat

/-- Where lines are written: to the output, or to a file by its stream. -/
inductive Sink where
  | output
  | file (stream : Nat)
  deriving DecidableEq, Repr

/-- What is written behind a line: a text, or what a file holds. -/
inductive Addition where
  | text (t : Octets)
  | file (path : Octets)

/-- How files are edited. With `inPlace`, what is written of a file takes its place, which may be kept
under a name made with an ending. -/
structure Manner where
  silent : Bool
  separate : Bool
  inPlace : Option Octets
  ending : Char
  width : Nat
  unbuffered : Bool

/-- The state of the tool between two commands. What has been written to the output is kept in pieces,
the last first, and `open` holds where the last line has not been ended. -/
structure Editor where
  space : Held
  kept : Held
  line : Nat
  ranges : Array RangeState
  replaced : Bool
  recent : Option (Text.Regex × Text.Look)
  waiting : List Addition
  paths : List Octets
  current : Option Input
  name : Octets
  sinks : List (Octets × Sink)
  sources : List (Octets × List Octets)
  output : List Octets
  unended : List Sink
  status : Nat

abbrev Edit := StateT Editor Act

/-- Why a run ends before its input does. -/
inductive Leaving where
  | quit (status : Nat)
  | failed (status : Nat) (message : Octets)

def stepsAt (steps : Array Step) (n : Nat) : Option Step := steps[n]?

/-- Writes all that is kept for the output. -/
def flush : Edit Unit := do
  let e ← get
  set { e with output := [] }
  if e.output != [] then liftM (Act.put e.output.reverse.flatten)

/-- Writes a text to where lines are written. -/
def emit (sink : Sink) (t : Octets) : Edit Unit := do
  match sink with
  | .output => modify fun e => { e with output := t :: e.output }
  | .file stream =>
    let s ← (liftM (get : Act Session) : Edit Session)
    match s.toWorld.write stream t with
    | .ok w => liftM (set { s with toWorld := w } : Act Unit)
    | .error _ => pure ()

/-- Ends a line that has been written without its end. -/
def mend (m : Manner) (sink : Sink) : Edit Unit := do
  let e ← get
  if e.unended.contains sink then
    set { e with unended := e.unended.filter (· != sink) }
    emit sink [m.ending]

def putLine (m : Manner) (sink : Sink) (h : Held) : Edit Unit := do
  mend m sink
  emit sink (if h.ended then h.text ++ [m.ending] else h.text)
  if !h.ended then modify fun e => { e with unended := sink :: e.unended }

def putText (m : Manner) (t : Octets) : Edit Unit := do
  mend m .output
  emit .output t

/-- The lines of a text, each with its end. -/
def linesOf (ending : Char) (t : Octets) : List Octets :=
  let parts := t.splitOn ending
  let full := parts.dropLast.map (· ++ [ending])
  match parts.getLast? with
  | some [] | none => full
  | some last => full ++ [last]

/-- Writes what waits to be written behind a line. -/
def putWaiting (m : Manner) : Edit Unit := do
  let waiting := (← get).waiting
  modify fun e => { e with waiting := [] }
  for w in waiting do
    mend m .output
    match w with
    | .text t => emit .output t
    | .file path =>
      let path := if path = text "/dev/stdin" then ['-'] else path
      emit .output ((← liftM (contentOf path)).toOption.getD [])

/-- Puts a text in the place of a file. -/
def replaceFile (suffix : Octets) (path t : Octets) : Act Unit := do
  let s ← get
  match lookAt s true path, lookAt s false path with
  | .ok thing, .ok own =>
    let mode := thing.mode s
    let folder := (path.reverse.dropWhile (· != '/')).reverse
    let name := path.drop folder.length
    let draft := folder ++ text "sedAbCdEf"
    match s.openPath draft .write with
    | .error _ => pure ()
    | .ok (s, stream) =>
      let w := (s.toWorld.write stream t).toOption.getD s.toWorld
      set { s with toWorld := w }
      if suffix != [] then
        let backup := if suffix.contains '*' then suffix.flatMap fun c => if c = '*' then name else [c]
          else name ++ suffix
        let target := if backup.contains '/' then backup else folder ++ backup
        modify fun s =>
          { s with toWorld := (s.toWorld.rename (s.place path) (s.place target)).toOption.getD s.toWorld }
      modify fun s =>
        { s with toWorld := (s.toWorld.rename (s.place draft) (s.place path)).toOption.getD s.toWorld }
      let s ← get
      match own, lookAt s false path with
      | _, .ok ⟨loc, e⟩ =>
        if s.toWorld.modeOf loc e != mode then set (s.modifyWorld fun w => w.setMode loc mode)
      | _, _ => pure ()
  | _, _ => pure ()

/-- Leaves the file that is read. What has not been taken of it is given back where that can be. -/
def closeInput (m : Manner) (steps : Array Step) : Edit Unit := do
  let e ← get
  match e.current with
  | none => pure ()
  | some input =>
    set { e with current := none }
    liftM (modify fun s : Session => s.modifyWorld fun w =>
      w.skip input.stream
        (if w.canRewind input.stream || m.unbuffered then input.taken
          else input.taken + input.lines.flatten.length) : Act Unit)
    if m.separate then
      modify fun e =>
        { e with ranges := steps.map fun s => match s.first with | some (.line 0) => .within none | _ => .before }
    match m.inPlace with
    | none => pure ()
    | some suffix =>
      let t := (← get).output.reverse.flatten
      modify fun e => { e with output := [], unended := e.unended.filter (· != .output) }
      liftM (replaceFile suffix input.name t)

/-- Opens the next file that can be read; tells why the run has to end if one cannot. The first
argument bounds the number of files. -/
def openNext (m : Manner) : Nat → Edit (Option Leaving)
  | 0 => return none
  | bound + 1 => do
    let e ← get
    match e.paths with
    | [] => return none
    | path :: rest =>
      set { e with paths := rest }
      let s ← (liftM (get : Act Session) : Edit Session)
      let refusal : Option String := if m.inPlace.isNone then none else
        match lookAt s true path with
        | .ok ⟨_, .file _ _⟩ => none
        | .ok _ => some "not a regular file"
        | .error _ => none
      match refusal with
      | some reason =>
        liftM (say (text "couldn't edit " ++ path ++ text (": " ++ reason)))
        modify fun e => { e with status := 4 }
        openNext m bound
      | none =>
        match ← liftM (openInput path) with
        | .error x =>
          liftM (say (text "can't read " ++ path ++ text (": " ++ x.reason)))
          modify fun e => { e with status := 2 }
          openNext m bound
        | .ok stream =>
          liftM (Act.awaitAll stream)
          let s ← (liftM (get : Act Session) : Edit Session)
          match s.toWorld.pending stream with
          | .error x =>
            return some (.failed 4 (text "read error on " ++ path ++ text (": " ++ x.message)))
          | .ok t =>
            modify fun e =>
              { e with
                current := some ⟨path, stream, linesOf m.ending t, 0⟩
                name := path
                line := if m.separate then 0 else e.line }
            return none

/-- Goes on to a file that has lines left, if there is one. With `within`, only the present file
counts. The first argument bounds the number of files. -/
def advance (m : Manner) (steps : Array Step) (within : Bool) : Nat → Edit (Option Leaving)
  | 0 => return none
  | bound + 1 => do
    let e ← get
    match e.current with
    | some input =>
      if input.lines != [] || within then return none
      closeInput m steps
      advance m steps within bound
    | none =>
      if e.paths = [] then return none
      match ← openNext m (e.paths.length + 1) with
      | some l => return some l
      | none => advance m steps within bound

/-- Whether no line is left behind the present one. -/
def isLast (m : Manner) (steps : Array Step) : Edit (Except Leaving Bool) := do
  let bound := 2 * (← get).paths.length + 3
  match ← advance m steps (m.separate && (← get).current.isSome) bound with
  | some l => return .error l
  | none => return .ok ((← get).current.all fun i => i.lines = [])

/-- Takes the next line; nothing if none is left. -/
def nextLine (m : Manner) (steps : Array Step) : Edit (Except Leaving (Option Held)) := do
  match ← advance m steps false (2 * (← get).paths.length + 3) with
  | some l => return .error l
  | none =>
    let e ← get
    match e.current with
    | none => return .ok none
    | some input =>
      match input.lines with
      | [] => return .ok none
      | line :: rest =>
        let ended := line.getLast? = some m.ending
        set { e with
          current := some { input with lines := rest, taken := input.taken + line.length }
          line := e.line + 1
          replaced := false }
        return .ok (some ⟨if ended then line.dropLast else line, ended⟩)

/-- The expression of a pattern, which is the one used last from then on. -/
def patternOf (p : Pattern) : Edit (Option (Text.Regex × Text.Look)) := do
  match p with
  | some r =>
    modify fun e => { e with recent := some r }
    return some r
  | none => return (← get).recent

def noPattern (last : Source) : Leaving :=
  .failed 1 (Complaint.message ⟨last, 0, 0, .noPattern⟩)

/-- Whether an address selects the present line. -/
def holds (m : Manner) (steps : Array Step) (source : Source) (a : Address) :
    Edit (Except Leaving Bool) := do
  let e ← get
  match a with
  | .line n => return .ok (e.line = n)
  | .every first step => return .ok (first ≤ e.line && (e.line - first) % step == 0)
  | .last => isLast m steps
  | .matching p =>
    match ← patternOf p with
    | none => return .error (noPattern source)
    | some (r, look) => return .ok (r.find? look e.space.text.toArray 0).isSome

/-- Whether a command is for the present line. -/
def selects (m : Manner) (steps : Array Step) (source : Source) (place : Nat) (s : Step) :
    Edit (Except Leaving Bool) := do
  let leave := fun state : RangeState =>
    modify fun e : Editor => { e with ranges := e.ranges.set! place state }
  match s.first, s.stop with
  | none, _ => return .ok true
  | some a, none => holds m steps source a
  | some a, some stop =>
    let e ← get
    match e.ranges[place]?.getD .before with
    | .within (some last) =>
      if last ≤ e.line then leave .passed
      return .ok (e.line ≤ last)
    | .within none =>
      match stop with
      | .address b =>
        match ← holds m steps source b with
        | .error l => return .error l
        | .ok ends =>
          if ends then leave .passed
          return .ok true
      | _ => return .ok true
    | state =>
      match a, stop with
      | .line n, .address (.line k) =>
        if state = .passed || e.line < n then return .ok false
        leave ((RangeEnd.address (.line k)).after e.line)
        return .ok (e.line = n || e.line ≤ k)
      | .line n, _ =>
        if state = .passed || e.line < n then return .ok false
        leave (stop.after e.line)
        return .ok true
      | _, _ =>
        match ← holds m steps source a with
        | .error l => return .error l
        | .ok false => return .ok false
        | .ok true =>
          leave (stop.after e.line)
          return .ok true

/-- Where the run goes on: at a command, with the next line, or with what is left of this one. -/
inductive Onward where
  | step (place : Nat)
  | cycle (prints : Bool)
  | again
  | leave (l : Leaving)

/-- What a command of the shell writes. -/
def outputOf (start : Starter) (command : Octets) : Act Octets := do
  let s ← get
  let (w, into, out) := s.toWorld.openPipe .empty
  set { s with toWorld := w }
  let number ← Act.fork (·.lead 1 (some into))
    (become start (text "couldn't run ") [text "sh", text "-c", command])
  keepingAside [out] (Act.awaitAll out)
  let found := ((← get).toWorld.pending out).toOption.getD []
  let _ ← awaitEnding number
  return found

def sinkOf (path : Octets) : Edit Sink := do
  return ((← get).sinks.lookup path).getD .output

/-- What stands before the first line feed. -/
def firstPart (m : Manner) (t : Octets) : Octets := t.takeWhile (· != m.ending)

/-- Does what a substitution asks for. -/
def substitute (m : Manner) (start : Starter) (source : Source) (s : Substitution) :
    Edit (Option Leaving) := do
  match ← patternOf s.pattern with
  | none => return some (noPattern source)
  | some (r, look) =>
    let e ← get
    match s.result? look r e.space.text with
    | none => return none
    | some t =>
      set { e with space := { e.space with text := t }, replaced := true }
      if s.evaluates then
        let found ← liftM (outputOf start t)
        let t := if found.getLast? = some m.ending then found.dropLast else found
        modify fun e => { e with space := { e.space with text := t } }
      let held := (← get).space
      if s.prints then putLine m .output held
      match s.file with
      | some path => putLine m (← sinkOf path) held
      | none => pure ()
      return none

/-- Takes the next line of a file that lines are read from one by one. -/
def sourceLine (m : Manner) (path : Octets) : Edit (Option Octets) := do
  let e ← get
  let lines ← match e.sources.lookup path with
    | some lines => pure lines
    | none => do
      let path := if path = text "/dev/stdin" then ['-'] else path
      match ← liftM (contentOf path) with
      | .ok t => pure (linesOf m.ending t)
      | .error _ => pure []
  modify fun e => { e with sources := (path, lines.drop 1) :: e.sources.filter fun p => p.1 != path }
  return lines.head?

/-- Does what a command says. -/
def perform (m : Manner) (steps : Array Step) (start : Starter) (source : Source) (place : Nat)
    (a : Action) : Edit Onward := do
  let onward := Onward.step (place + 1)
  let wait := fun w : Addition => modify fun e : Editor => { e with waiting := e.waiting ++ [w] }
  let put := fun t : Octets => modify fun e : Editor => { e with space := { e.space with text := t } }
  let e ← get
  match a with
  | .block past => return .step past
  | .nothing | .label _ => return onward
  | .branch rule name =>
    let goal := Onward.step ((placeOfLabel? steps name).getD steps.size)
    match rule with
    | .always => return goal
    | .replaced =>
      set { e with replaced := false }
      return if e.replaced then goal else onward
    | .unreplaced =>
      set { e with replaced := false }
      return if e.replaced then onward else goal
  | .append t =>
    wait (.text t)
    return onward
  | .insert t =>
    putText m t
    return onward
  | .change t =>
    match e.ranges[place]?.getD .before with
    | .within _ => pure ()
    | _ => putText m t
    return .cycle false
  | .delete => return .cycle false
  | .deleteFirst =>
    if e.space.text.contains m.ending then
      put (e.space.text.drop ((firstPart m e.space.text).length + 1))
      return .again
    else return .cycle false
  | .print =>
    putLine m .output e.space
    return onward
  | .printFirst =>
    putLine m .output ⟨firstPart m e.space.text, true⟩
    return onward
  | .next | .join =>
    match ← isLast m steps with
    | .error l => return .leave l
    | .ok true =>
      let e ← get
      if e.paths = [] then return .cycle true
      goOn e
    | .ok false => goOn e
  | .hold =>
    set { e with kept := e.space }
    return onward
  | .holdMore =>
    set { e with kept := e.kept.append m.ending e.space }
    return onward
  | .fetch =>
    set { e with space := e.kept }
    return onward
  | .fetchMore =>
    set { e with space := e.space.append m.ending e.kept }
    return onward
  | .exchange =>
    set { e with space := e.kept, kept := e.space }
    return onward
  | .display width =>
    putText m (shownText (width.getD m.width) e.space.text)
    return onward
  | .number =>
    putText m (Octets.ofNat e.line ++ ['\n'])
    return onward
  | .fileName =>
    putText m (e.name ++ ['\n'])
    return onward
  | .clear =>
    put []
    return onward
  | .quit status =>
    if !m.silent then putLine m .output e.space
    putWaiting m
    return .leave (.quit status)
  | .leave status => return .leave (.quit status)
  | .readFile path =>
    wait (.file path)
    return onward
  | .readLine path =>
    match ← sourceLine m path with
    | some t => wait (.text t)
    | none => pure ()
    return onward
  | .writeFile path =>
    putLine m (← sinkOf path) e.space
    return onward
  | .writeFirst path =>
    putLine m (← sinkOf path) ⟨firstPart m e.space.text, true⟩
    return onward
  | .substitute s =>
    match ← substitute m start source s with
    | some l => return .leave l
    | none => return onward
  | .exchangeLetters table =>
    put (e.space.text.map fun c => (table.lookup c).getD c)
    return onward
  | .evaluate command =>
    flush
    if command = [] then
      let found ← liftM (outputOf start e.space.text)
      put (if found.getLast? = some m.ending then found.dropLast else found)
    else putText m (← liftM (outputOf start command))
    return onward
where
  /-- Goes on with the next line, behind what is there or in its place. -/
  goOn (_ : Editor) : Edit Onward := do
    if a = .next && !m.silent then putLine m .output (← get).space
    putWaiting m
    match ← nextLine m steps with
    | .error l => return .leave l
    | .ok none => return .cycle true
    | .ok (some h) =>
      if a = .next then modify fun e => { e with space := h }
      else modify fun e =>
        { e with space := ⟨e.space.text ++ m.ending :: h.text, h.ended⟩ }
      return .step (place + 1)

/-- Runs the script from a command on, and then for the lines that follow. The first argument bounds
the steps. -/
def run (m : Manner) (steps : Array Step) (start : Starter) (source : Source) :
    Nat → Onward → Edit Leaving
  | 0, _ => do
    liftM (starve () : Act Unit)
    return .quit 0
  | bound + 1, onward => do
    match onward with
    | .leave l => return l
    | .again => run m steps start source bound (.step 0)
    | .cycle prints =>
      if prints && !m.silent then putLine m .output (← get).space
      putWaiting m
      match ← nextLine m steps with
      | .error l => return l
      | .ok none => return .quit 0
      | .ok (some h) =>
        modify fun e => { e with space := h }
        run m steps start source bound (.step 0)
    | .step place =>
      match stepsAt steps place with
      | none => run m steps start source bound (.cycle true)
      | some s =>
        match ← selects m steps source place s with
        | .error l => return l
        | .ok selected =>
          if selected != s.negated then
            run m steps start source bound (← perform m steps start source place s.action)
          else run m steps start source bound (.step (place + 1))

/-- How many steps a run may take. -/
def maxSteps : Nat := 2000000

/-- Edits files by a script. -/
def edit (m : Manner) (steps : Array Step) (start : Starter) (source : Source) (paths : List Octets) :
    Act Unit := do
  let channel := fun n : Nat => do
    let s : Session ← get
    return (((s.channels.lookup n).map Sink.file).getD .output)
  let plain ← if m.inPlace.isSome then channel 1 else pure .output
  let mut sinks : List (Octets × Sink) :=
    [(text "/dev/stdout", plain), (text "/dev/stderr", ← channel 2)]
  for s in steps do
    match s.action.written? with
    | none => pure ()
    | some path =>
      if (sinks.lookup path).isNone then
        let s : Session ← get
        match s.openPath path .write with
        | .ok (s, n) =>
          set s
          sinks := sinks ++ [(path, .file n)]
        | .error e =>
          return ← failWith 4 (text "couldn't open file " ++ path ++ text (": " ++ errorText e))
  let first := steps.map fun s => match s.first with
    | some (.line 0) => RangeState.within none
    | _ => .before
  let e : Editor := ⟨⟨[], true⟩, ⟨[], true⟩, 0, first, false, none, [], paths, none, ['-'], sinks, [], [], [], 0⟩
  let all : Edit Unit := do
    let leaving ← match ← nextLine m steps with
      | .error l => pure l
      | .ok none => pure (.quit 0)
      | .ok (some h) => do
        modify fun e => { e with space := h }
        run m steps start source maxSteps (.step 0)
    match leaving with
    | .quit status =>
      closeInput m steps
      flush
      let e ← get
      liftM (Act.setStatus (if e.status != 0 then e.status else status))
    | .failed status message =>
      liftM (say message)
      flush
      liftM (Act.setStatus status)
  let _ ← all.run e

def usage : Act Unit := do
  modify fun s =>
    { s.report (text "Usage: " ++ s.name ++
        text " [OPTION]... \x7bscript-only-if-no-other-script\x7d [input-file]...\n") with status := 1 }

def options : OptionTable :=
  .of "bsnrzuEe:f:l:i::"
    [("binary", "b", .nothing), ("regexp-extended", "E", .nothing), ("debug", "debug", .nothing),
      ("in-place", "i", .optional), ("expression", "e", .required), ("file", "f", .required),
      ("line-length", "l", .required), ("null-data", "z", .nothing),
      ("zero-terminated", "z", .nothing), ("quiet", "n", .nothing), ("silent", "n", .nothing),
      ("posix", "posix", .nothing), ("separate", "s", .nothing), ("sandbox", "sandbox", .nothing),
      ("unbuffered", "u", .nothing), ("follow-symlinks", "follow", .nothing)]

/-- The parts of the script that the options give; a complaint if a file cannot be read. -/
def partsOf (given : Given) : Act (Except Octets (List (Source × Octets))) := do
  let mut parts := []
  let mut number := 0
  for (key, argument) in given do
    if key = "e" then
      number := number + 1
      parts := parts ++ [(Source.expression number, argument)]
    else if key = "f" then
      match ← contentOf argument with
      | .ok t => parts := parts ++ [(.file argument, t)]
      | .error e => return .error (text "couldn't open file " ++ argument ++ text (": " ++ e.reason))
  return .ok parts

end Sed

def sed (start : Starter) (words : List Octets) : Act Unit := do
  match Sed.options.read words with
  | .error e =>
    say (text e.message)
    Sed.usage
  | .ok (given, operands) =>
    match ← Sed.partsOf given with
    | .error message => failWith 4 message
    | .ok parts =>
      match parts, operands with
      | [], [] => Sed.usage
      | _, _ =>
        let (parts, paths) :=
          if parts = [] then ([(Sed.Source.expression 1, operands.headD [])], operands.drop 1)
          else (parts, operands)
        match Sed.read (given.has "E" || given.has "r") parts with
        | .error e => failWith (match e.failure with | .noSuchLabel _ => 4 | _ => 1) e.message
        | .ok (steps, silent) =>
          let inPlace := given.last? "i"
          if inPlace.isSome && paths = [] then failWith 4 (text "no input files")
          else
            let m : Sed.Manner :=
              ⟨silent || given.has "n", given.has "s" || inPlace.isSome, inPlace,
                if given.has "z" then '\x00' else '\n',
                ((given.last? "l").bind decimal?).getD 70, given.has "u"⟩
            let source := (parts.getLast?.map fun p => p.1).getD (.expression 1)
            Sed.edit m steps start source (orInput paths)

end BitcodeReplay.Tool
