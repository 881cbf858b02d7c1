import BitcodeReplay.Shell.Builtin
import BitcodeReplay.Shell.Builtin.Names
import BitcodeReplay.Shell.Field
import BitcodeReplay.Shell.Fork
import BitcodeReplay.Shell.Opening
import BitcodeReplay.Shell.Reader.Grammar
import BitcodeReplay.Tool.Table

/-!
Running scripts. The commands of a pipeline, those in the background and those whose output is taken
run as processes of their own. The first argument of each function bounds the steps of a run, and a
shell that has used them up is starved.
-/

namespace BitcodeReplay.Shell

open Act

/-- Where a command stands: whether its failure is an answer, and whether its process ends with it. -/
structure Standing where
  tested : Bool
  final : Bool
  deriving DecidableEq, Repr

namespace Standing

def plain : Standing := ⟨false, false⟩

/-- The standing of a condition. -/
def test : Standing := ⟨true, false⟩

/-- The standing of a command behind which others come. -/
def inner (m : Standing) : Standing := ⟨m.tested, false⟩

/-- The standing of the commands of a process of its own. -/
def own (m : Standing) : Standing := ⟨m.tested, true⟩

end Standing

/-- Whether an operator takes a value for none. -/
def isAbsent (empty : Bool) (value : Option Octets) : Bool :=
  value.isNone || (empty && value == some [])

/-- A text without the line feeds at its end, and without null characters. -/
def trimOutput (text : Octets) : Octets :=
  (text.reverse.dropWhile (· == '\n')).reverse.filter (· != '\x00')

/-- The argument of an operator outside quotes, which is split like a value. -/
def loosened (pieces : List Piece) : List Piece :=
  pieces.map fun piece =>
    match piece with
    | .fixed text false => .loose text
    | other => other

/-- The arguments of the shell as an expansion gives them. Where words are split, each is a field of
its own, unless a star stands between quotes. -/
def argumentPieces (s : Session) (full quoted : Bool) (name : Octets) : List Piece :=
  let apart := List.intercalate ['\x00'] s.arguments
  if full && quoted && name = ['@'] then
    if s.arguments = [] then [] else [.arguments apart]
  else if full && !quoted then [.loose apart]
  else [.ofValue quoted (List.intercalate (s.separators.take 1) s.arguments)]

/-- What a parameter is worth. The arguments always count as set. -/
def Session.worth? (s : Session) (name : Octets) : Option Octets :=
  if name = ['@'] || name = ['*'] then
    some (List.intercalate (s.separators.take 1) s.arguments)
  else s.value? name

/-- What a loop does after its commands: whether it goes on, and how the flow is then. -/
def afterBody : Flow → Bool × Flow
  | .running => (true, .running)
  | .breaking n => (false, if n ≤ 1 then .running else .breaking (n - 1))
  | .continuing n => if n ≤ 1 then (true, .running) else (false, .continuing (n - 1))
  | other => (false, other)

/-- Ends the shell after a failure that nothing asked for, if it is to end then. -/
def checkFailure (m : Standing) : Act Unit :=
  modify fun s =>
    if s.has 'e' && !m.tested && s.status != 0 && s.flow == .running then { s with flow := .exiting }
    else s

/-- Runs something in a process of its own, or in the one of its shell if that ends with it and
nothing is to be run then. -/
def apart (m : Standing) (act : Act Unit) : Act Unit := do
  if m.final && (← get).traps.all fun p => p.2.isEmpty then
    act
    modify fun s =>
      { s with
        flow := match s.flow with
          | .killed n => .killed n
          | .starved => .starved
          | _ => .exiting }
  else separate act

/-- Starts the stages of a pipeline, each from a state that is prepared for it, and gives their
numbers. What one writes the next reads; the first reads from a stream that may be given. -/
def startStages (prepare : Session → Session) (start : Command → Act Unit) :
    Option Nat → List Command → Act (List Nat)
  | _, [] => return []
  | input, stage :: rest => do
    let reading := fun s : Session => input.elim s fun n => s.lead 0 (some n)
    if rest = [] then return [← fork (fun s => reading (prepare s)) (start stage)]
    let s ← get
    let (w, writer, reader) := s.toWorld.openPipe .empty
    set { s with toWorld := w }
    let first ← fork (fun s => (reading (prepare s)).lead 1 (some writer)) (start stage)
    return first :: (← startStages id start (some reader) rest)

/-- What a shell does to itself as a process in the background: it does not hear of two signals, and
has nothing to read. -/
def unattended (s : Session) : Session :=
  { s with deaf := 2 :: 3 :: s.deaf }.connect 0 (Session.streamOn .null .read)

/-- Waits for processes, and tells of each how it was ended when it has. The status is that of the
last one given. The first argument bounds their number. -/
def awaitStages (last : Nat) : Nat → List Nat → Act Unit
  | 0, _ => pure ()
  | bound + 1, numbers => do
    if numbers ≠ [] then
      await fun w => numbers.any w.hasEnded
      let w := (← get).toWorld
      let place := fun n : Nat => (((w.process? n).bind (·.ending)).map (·.1)).getD 0
      let first := (numbers.filter w.hasEnded).foldl
        (fun (known : Option Nat) n =>
          if known.all fun k => place n < place k then some n else known) none
      let number := first.getD 0
      let ending ← awaitEnding number
      tellEnding ending
      if number = last then setStatus ending.code
      awaitStages last bound (numbers.erase number)

/-- Gives a process that has been started in the background to the jobs. -/
def Session.addJob (s : Session) (place : Nat) (numbers : List Nat) : Session :=
  let last := numbers.getLastD 0
  { s with jobs := s.jobs ++ [⟨place, last, numbers, none, false⟩], lastJob := some last, status := 0 }

/-- Gives names what they had before. -/
def restore (kept : List (Octets × Option Variable)) (s : Session) : Session :=
  kept.foldl (fun s p => s.bind p.1 p.2) s

/-- How many steps it can take at most to read a script. -/
def readingSteps (s : Session) (text : Octets) : Nat :=
  64 * (text.length + s.aliases.foldl (fun n p => n + p.2.length) 0) + 1000

/-- The parts of a text that is expanded like a document; the text itself if it cannot be read. -/
def documentParts (s : Session) (text : Octets) : Word :=
  match (Reader.parts (readingSteps s text) .document).run (Script.start text s.documents) with
  | .ok (parts, _) => parts
  | .error _ => [.text text true]

/-- The variables with which a shell starts, apart from those that it is given. -/
def defaults : List (String × String) :=
  [("PATH", Image.searchPath), ("OPTIND", "1"), ("IFS", " \t\n"), ("PS1", "# "), ("PS2", "> "), ("PS4", "+ ")]

/-- A shell as it starts, with the variables that it is given. -/
def Session.fresh (s : Session) (self : Octets) (parent : Nat) : Session :=
  let logical := match s.named "PWD" with
    | some path =>
      match s.tree.find? path.toText with
      | some (loc, .dir) =>
        if path.head? = some '/' && "/" ++ String.intercalate "/" loc = s.directory then path.toText
        else s.directory
      | _ => s.directory
    | none => s.directory
  let given := s.bindings.filter fun p => Builtin.isName p.1 && p.1 != "IFS".toList
  let known := fun name : String => given.any fun p => p.1 == name.toList
  let start := defaults.filter fun p => !known p.1
  let note := fun name value => (String.toList name, Variable.mk (some value) false false)
  let place := ("PWD".toList, Variable.mk (some (Octets.ofText logical)) true false)
  let others := given.filter fun p => p.1 != "PWD".toList && p.1 != "PPID".toList
  { s with
    name := self
    logical := logical
    bindings := place :: note "PPID" (.ofNat parent) ::
      start.map (fun p => note p.1 p.2.toList) ++ others
    arguments := []
    root := s.process
    lastJob := none
    jobs := []
    line := 0
    status := 0
    substituted := none
    optionIndex := 1
    optionOffset := none
    leaving := none }

/-- Tells that a program cannot be started. -/
def failStart (command : Octets) (e : FileError) : Act Unit := do
  let missing := Image.isAbsence e || e = .tooManyLinks || e = .nameTooLong
  complain (if missing then 127 else 126) (Octets.toText command ++ ": " ++ absenceText e)

/-- The options of a shell at its start: whether a text is to be run, and the words after them. -/
def startOptions : Nat → Bool → List Octets → Act (Bool × List Octets)
  | 0, hasText, words => return (hasText, words)
  | fuel + 1, hasText, words => do
    match words with
    | ['-'] :: rest | ['-', '-'] :: rest => return (hasText, rest)
    | (sign :: letters) :: rest =>
      if (sign = '-' || sign = '+') && (sign = '+' || letters ≠ []) then
        let known := letters.filter fun c => !(sign == '-' && c == 'c') && c != 'l'
        let rest ← Builtin.setLetters (sign == '-') known rest
        if (← get).flow != .running then return (false, [])
        startOptions fuel (hasText || (sign == '-' && letters.contains 'c')) rest
      else return (hasText, words)
    | _ => return (hasText, words)

/-- How many functions may be run inside each other, and how many traps. -/
def maxCalls : Nat := 1000

def maxHandlers : Nat := 10000

mutual

/-- What a word becomes. With `full`, what it expands to is split later. -/
def expand : Nat → Bool → Word → Act (List Piece)
  | 0, _, _ => starve []
  | _ + 1, _, [] => return []
  | fuel + 1, full, part :: rest => do
    let first ← expandPart fuel full part
    if (← get).flow != .running then return first
    return first ++ (← expand fuel full rest)

def expandPart : Nat → Bool → Part → Act (List Piece)
  | 0, _, _ => starve []
  | fuel + 1, full, part => do
    match part with
    | .text chars quoted => return [.fixed chars quoted]
    | .parameter name operator argument quoted =>
      expandParameter fuel full name operator argument quoted
    | .substitution body quoted => return [.ofValue quoted (trimOutput (← capture fuel body))]
    | .arithmetic expression quoted =>
      let text := Piece.join (← expand fuel false expression)
      let s ← get
      if s.flow != .running then return []
      match Arithmetic.evaluate (fun name => (s.value? name).getD []) text with
      | .ok (n, assigned) =>
        set (assigned.foldr (fun a s => s.assign a.1 (toString a.2).toList) s)
        return [.ofValue quoted (toString n).toList]
      | .error e =>
        abort (e.message (Octets.toText text))
        return []
    | .broken =>
      abort "Bad substitution"
      return []

def expandParameter : Nat → Bool → Octets → Operator → Word → Bool → Act (List Piece)
  | 0, _, _, _, _, _ => starve []
  | fuel + 1, full, name, operator, argument, quoted => do
    let s ← get
    let value := s.worth? name
    let own := if name = ['@'] || name = ['*'] then argumentPieces s full quoted name
      else [.ofValue quoted (value.getD [])]
    let instead := do
      let pieces ← expand fuel full (Tilde.expand (← get) false argument)
      return if quoted then pieces else loosened pieces
    let argumentText := do
      return Piece.join (← expand fuel false (Tilde.expand (← get) false argument))
    let argumentPattern := do
      return Pattern.ofText (Piece.pattern (← expand fuel false (Tilde.expand (← get) false argument)))
    match operator with
    | .value | .length | .stripStart _ | .stripEnd _ =>
      if s.has 'u' && value.isNone then
        abort (Octets.toText name ++ ": parameter not set")
        return []
    | _ => pure ()
    match operator with
    | .value => return own
    | .length => return [.ofValue quoted (Octets.ofNat (value.getD []).length)]
    | .orElse empty => if isAbsent empty value then instead else return own
    | .ifSet empty =>
      if isAbsent empty value then return [.ofValue quoted []] else instead
    | .orAssign empty =>
      if !isAbsent empty value then return own
      let text ← argumentText
      if (← get).flow != .running then return []
      Builtin.withName name fun s => s.assign name text
      return [.ofValue quoted text]
    | .orFail empty =>
      if !isAbsent empty value then return own
      let text ← argumentText
      let reason := if argument ≠ [] then Octets.toText text
        else if empty then "parameter not set or null" else "parameter not set"
      abort (Octets.toText name ++ ": " ++ reason)
      return []
    | .stripStart longest =>
      let pattern ← argumentPattern
      return [.ofValue quoted (pattern.stripStart longest (value.getD []))]
    | .stripEnd longest =>
      let pattern ← argumentPattern
      return [.ofValue quoted (pattern.stripEnd longest (value.getD []))]

/-- What some commands write. -/
def capture : Nat → List Command → Act Octets
  | 0, _ => starve []
  | fuel + 1, body => do
    takeNumber
    let s ← get
    let (w, writer, reader) := s.toWorld.openPipe .empty
    set { s with toWorld := w }
    let number ← fork (·.lead 1 (some writer)) (runOwn fuel Standing.plain body)
    keepingAside [reader] (awaitAll reader)
    let text := ((← get).toWorld.pending reader).toOption.getD []
    modify (·.modifyWorld fun w => w.skip reader text.length)
    let ending ← awaitEnding number
    tellEnding ending
    modify fun after => { after with substituted := some ending.code }
    return text

/-- A word that is not split. With `colons`, tildes count behind colons too. -/
def expandText : Nat → Bool → Word → Act Octets
  | 0, _, _ => starve []
  | fuel + 1, colons, word => do
    return Piece.join (← expand fuel false (Tilde.expand (← get) colons word))

/-- The fields of some words. -/
def expandFields : Nat → List Word → Act (List Octets)
  | 0, _ => starve []
  | _ + 1, [] => return []
  | fuel + 1, word :: rest => do
    let pieces ← expand fuel true (Tilde.expand (← get) false word)
    let s ← get
    if s.flow != .running then return []
    let fields := (Field.split s.separators none pieces).flatMap (Field.expand s)
    return fields ++ (← expandFields fuel rest)

/-- The fields of a command line, of which some are known. What is given to a builtin that takes
assignments is not split. -/
def expandLine : Nat → List Octets → List Word → Act (List Octets)
  | 0, _, _ => starve []
  | _ + 1, known, [] => return known
  | fuel + 1, known, word :: rest => do
    let s ← get
    let value := assignment? Arithmetic.isNameStart Arithmetic.isNameChar word
    let fields ← match value with
      | some (name, value) =>
        if (Invocation.read s known).takesAssignments s then do
          let text ← expandText fuel true value
          pure [name ++ '=' :: text]
        else expandFields fuel [word]
      | none => expandFields fuel [word]
    if (← get).flow != .running then return []
    expandLine fuel (known ++ fields) rest

/-- Runs commands one after the other. -/
def runAll : Nat → Standing → List Command → Act Unit
  | 0, _, _ => starve ()
  | _ + 1, _, [] => pure ()
  | fuel + 1, m, [c] => run fuel m c
  | fuel + 1, m, c :: rest => do
    run fuel m.inner c
    if (← get).flow = .running then runAll fuel m rest

/-- Runs commands as a process of its own, with what is to be run when it ends. -/
def runOwn : Nat → Standing → List Command → Act Unit
  | 0, _, _ => starve ()
  | fuel + 1, m, commands => do
    runAll fuel m.own commands
    runLeave fuel

/-- Runs a command, and then what the signals that have come ask for. -/
def run : Nat → Standing → Command → Act Unit
  | 0, _, _ => starve ()
  | fuel + 1, m, c => do
    if (← get).has 'n' then return ()
    runCommand fuel m c
    if (← get).signals ≠ [] then runSignals fuel

def runCommand : Nat → Standing → Command → Act Unit
  | 0, _, _ => starve ()
  | fuel + 1, m, c => do
    match c with
    | .simple line assignments words targets =>
      tick
      modify fun s => { s with line := line, substituted := none }
      let fields ← expandLine fuel [] words
      if (← get).flow = .running then
        match fields with
        | [] => runAssignments fuel assignments targets
        | _ => runLine fuel m assignments targets fields
        checkFailure m
    | .pipeline stages =>
      takeNumber
      let numbers ← startStages id (fun stage => runOwn fuel m [stage]) none stages
      awaitStages (numbers.getLastD 0) numbers.length numbers
      checkFailure m
    | .negated command =>
      run fuel Standing.test command
      modify fun s =>
        if s.flow = .running then { s with status := if s.status = 0 then 1 else 0 } else s
    | .both first second =>
      run fuel Standing.test first
      let s ← get
      if s.flow = .running && s.status = 0 then run fuel m second
    | .either first second =>
      run fuel Standing.test first
      let s ← get
      if s.flow = .running && s.status != 0 then run fuel m second
    | .background command => runBackground fuel command
    | .group commands => runAll fuel m commands
    | .subshell line commands targets =>
      modify fun s => { s with line := line }
      let leads ← expandTargets fuel targets
      if (← get).flow = .running then
        apart m do
          if ← redirect leads then runOwn fuel m commands else setStatus 2
        checkFailure m
    | .branch condition body otherwise =>
      runAll fuel Standing.test condition
      let s ← get
      if s.flow = .running then
        if s.status = 0 then runAll fuel m body
        else if otherwise.isEmpty then setStatus 0
        else runAll fuel m otherwise
    | .loop endsOnSuccess condition body =>
      modify fun s => { s with loops := s.loops + 1 }
      runLoop fuel m.inner endsOnSuccess condition body 0
      modify fun s => { s with loops := s.loops - 1 }
    | .each line name words body =>
      modify fun s => { s with line := line }
      let items ← match words with
        | some words => expandFields fuel words
        | none => pure (← get).arguments
      if (← get).flow = .running then
        modify fun s => { s with status := 0, loops := s.loops + 1 }
        runEach fuel m.inner name body items
        modify fun s => { s with loops := s.loops - 1 }
    | .choice line subject arms =>
      modify fun s => { s with line := line }
      let text ← expandText fuel false subject
      if (← get).flow = .running then
        setStatus 0
        runChoice fuel m text arms
    | .define line name body =>
      modify fun s =>
        { s with
          functions := (name, line, body) :: s.functions.filter fun p => p.1 != name
          status := 0 }
    | .redirected line command targets =>
      modify fun s => { s with line := line }
      let leads ← expandTargets fuel targets
      if (← get).flow = .running then
        keepingChannels do
          if ← redirect leads then run fuel m.inner command
          else
            setStatus 2
            checkFailure m

/-- What some redirections ask for. -/
def expandTargets : Nat → List Redirection → Act (List Lead)
  | 0, _ => starve []
  | _ + 1, [] => return []
  | fuel + 1, target :: rest => do
    let lead ← match target with
      | .path number direction word => do
        let text ← expandText fuel false word
        if direction = .duplicate then
          match Lead.ofWord? number text with
          | some lead => pure [lead]
          | none =>
            abort "Syntax error: Bad fd number"
            pure []
        else pure [Lead.path number direction text]
      | .document number index => do
        let parts := ((← get).documents[index]?).getD []
        pure [Lead.content number (Piece.join (← expand fuel false parts))]
    if (← get).flow != .running then return []
    return lead ++ (← expandTargets fuel rest)

/-- Shows a command line behind the text that is to stand before it, on what was the channel of
messages before. -/
def trace : Nat → List (Nat × Nat) → List Octets → Act Unit
  | 0, _, _ => starve ()
  | fuel + 1, channels, words => do
    let s ← get
    if s.has 'x' then
      set { s with options := s.options.filter (· != 'x') }
      let start ← expand fuel false (documentParts s ((s.named "PS4").getD []))
      modify fun after => { after with options := s.options }
      let line := Piece.join start ++ List.intercalate [' '] words ++ ['\n']
      keepingChannels do
        modify fun s => { s with channels := channels }.report line

/-- A command that has no words. -/
def runAssignments : Nat → List (Octets × Word) → List Redirection → Act Unit
  | 0, _, _ => starve ()
  | fuel + 1, assignments, targets => do
    let channels := (← get).channels
    let leads ← expandTargets fuel targets
    if (← get).flow = .running then
      keepingChannels do
        if ← redirect leads then
          let shown ← assignAll fuel assignments
          trace fuel channels shown
          modify fun s =>
            if s.flow = .running then { s with status := s.substituted.getD 0 } else s
        else setStatus 2

/-- Carries out assignments, and gives them as they are shown. -/
def assignAll : Nat → List (Octets × Word) → Act (List Octets)
  | 0, _ => starve []
  | _ + 1, [] => return []
  | fuel + 1, (name, word) :: rest => do
    let text ← expandText fuel true word
    if (← get).flow != .running then return []
    modify (·.assign name text)
    return (name ++ '=' :: text) :: (← assignAll fuel rest)

/-- A command with words: a builtin, a function or a program. Assignments last only before a builtin
that is special. -/
def runLine : Nat → Standing → List (Octets × Word) → List Redirection → List Octets → Act Unit
  | 0, _, _, _, _ => starve ()
  | fuel + 1, m, assignments, targets, fields => do
    let before ← get
    let i := Invocation.read before fields
    let kind := i.kind before
    let special := match kind with
      | .builtin special => special
      | _ => false
    let isExec := match kind with
      | .builtin _ => i.words.head? == some "exec".toList
      | _ => false
    let leads ← expandTargets fuel targets
    let aside := (← get).aside
    if (← get).flow = .running then
      modify fun s => { s with aside := before.channels.map (·.2) ++ aside }
      if ← redirect leads then
        let kept := assignments.map fun a => (a.1, before.bindings.lookup a.1)
        let shown ← assignAll fuel assignments
        if !special || (isExec && i.words.length > 1) then
          modify fun s => assignments.foldl
            (fun s a => s.mark a.1 fun v => { v with exported := true }) s
        if (← get).flow = .running then
          trace fuel before.channels (shown ++ fields)
          match kind with
          | .function line body => runFunction fuel m line body (i.words.drop 1)
          | .builtin special => runBuiltin fuel m special (i.words.headD []) (i.words.drop 1)
          | .program => runProgram fuel m i
        if !special then modify (restore kept)
      else
        modify fun s =>
          { s with status := 2, flow := if special then .failing else s.flow }
    modify fun s => { s with aside := aside, channels := if isExec then s.channels else before.channels }

def runFunction : Nat → Standing → Nat → Command → List Octets → Act Unit
  | 0, _, _, _, _ => starve ()
  | fuel + 1, m, _, body, arguments => do
    let before ← get
    if maxCalls ≤ before.calls then
      abort ("Maximum function recursion depth (" ++ toString maxCalls ++ ") reached")
      return ()
    set { before with
      arguments := arguments
      locals := some []
      outerOptions := none
      loops := 0
      calls := before.calls + 1
      optionIndex := 1
      optionOffset := none }
    run fuel m.inner body
    modify fun s =>
      let s := restore (s.locals.getD []) s
      { s with
        arguments := before.arguments
        locals := before.locals
        options := s.outerOptions.getD s.options
        outerOptions := before.outerOptions
        loops := before.loops
        calls := before.calls
        optionIndex := before.optionIndex
        optionOffset := before.optionOffset
        flow := if s.flow = .returning then .running else s.flow }

/-- Runs a builtin. Only a special one takes the shell with it when it fails. -/
def runBuiltin : Nat → Standing → Bool → Octets → List Octets → Act Unit
  | 0, _, _, _, _ => starve ()
  | fuel + 1, m, special, name, arguments => do
    let builtin := (← get).builtin
    modify fun s => { s with builtin := some name, failed := none }
    runBuiltinAct fuel m name arguments
    modify fun s =>
      let s := match s.failed with
        | some _ =>
          { s.complain (Octets.toText name ++ ": I/O error") with status := s.status ||| 1, failed := none }
        | none => s
      { s with
        builtin := builtin
        flow := if s.flow = .failing && !special then .running else s.flow }

def runBuiltinAct : Nat → Standing → Octets → List Octets → Act Unit
  | 0, _, _, _ => starve ()
  | fuel + 1, m, name, arguments => do
    match Builtin.named? name with
    | some act => act arguments
    | none =>
      match String.ofList name with
      | "eval" =>
        runText fuel m.inner false (List.intercalate [' '] arguments)
      | "." => runSource fuel arguments
      | "exec" =>
        match arguments with
        | [] => setStatus 0
        | program :: rest =>
          let s ← get
          match s.programPath s.directories program with
          | .ok path => become fuel program (Octets.ofText path) rest
          | .error e => failStart program e
          modify fun s => { s with flow := if s.flow = .running then .exiting else s.flow }
      | "wait" =>
        match ← operands arguments with
        | none => pure ()
        | some [] =>
          let running := (← get).jobs.filter (·.status.isNone)
          match ← awaitAlert (running.flatMap (·.processes)) with
          | some signal => setStatus (128 + signal)
          | none =>
            modify fun s =>
              let s := s.collect
              { s with status := 0, jobs := s.jobs.map fun j => { j with waited := true } }
        | some targets => runWait fuel targets
      | _ => setStatus 0

/-- Runs a program that is found in the tree or in the system. -/
def runProgram : Nat → Standing → Invocation → Act Unit
  | 0, _, _ => starve ()
  | fuel + 1, m, i => do
    let s ← get
    let name := i.words.headD []
    let arguments := i.words.drop 1
    match s.programPath (if i.standard then Image.searchPath else s.directories) name with
    | .error e => complain 127 (Octets.toText name ++ ": " ++ absenceText e)
    | .ok path =>
      if !name.contains '/' then modify (Builtin.track name path)
      apart m (become fuel name (Octets.ofText path) arguments)

/-- Becomes what a path runs, under a name, and complains if nothing can be run there. A file that
names no interpreter is run by a shell. -/
def become : Nat → Octets → Octets → List Octets → Act Unit
  | 0, _, _, _ => starve ()
  | fuel + 1, command, path, arguments => do
    modify fun s => { s with bindings := Listing.byRow Listing.variableRows s.bindings }
    match ← startPath fuel command path arguments with
    | .ok () => pure ()
    | .error .notExecutable =>
      modify Session.bare
      runShell fuel command (path :: arguments)
    | .error e => failStart command e

/-- Becomes what a path runs; an error if nothing can be run there. -/
def startPath : Nat → Octets → Octets → List Octets → Act (Except FileError Unit)
  | 0, _, _, _ => starve (.ok ())
  | fuel + 1, command, path, arguments => do
    let s ← get
    match Image.start s.tree s.directory Image.maxInterpreters command path arguments with
    | .error e => return .error e
    | .ok (name, self, words) =>
      modify Session.bare
      match name with
      | "sh" | "dash" => runShell fuel self words
      | _ =>
        match Tool.named? (startNamed fuel) name with
        | some tool =>
          modify fun s => { s with name := self, status := 0 }
          tool words
          Tool.checkOutput name
        | none => setStatus 0
      return .ok ()

/-- Becomes the program that a name leads to, as other programs do it. -/
def startNamed : Nat → Octets → List Octets → Act (Except FileError Unit)
  | 0, _, _ => starve (.ok ())
  | fuel + 1, command, arguments => do
    let s ← get
    let directories := (s.named "PATH").elim "/bin:/usr/bin" Octets.toText
    match if command = [] then .error .notFound else s.programPath directories command with
    | .error e => return .error e
    | .ok path =>
      match ← startPath fuel command (Octets.ofText path) arguments with
      | .error .notExecutable =>
        modify Session.bare
        runShell fuel "/bin/sh".toList (Octets.ofText path :: arguments)
        return .ok ()
      | result => return result

/-- Runs something in the background. -/
def runBackground : Nat → Command → Act Unit
  | 0, _ => starve ()
  | fuel + 1, command => do
    let (s, place) := (← get).freeNumber
    set s
    let stages := match command with
      | .pipeline stages => stages
      | other => [other]
    let numbers ← startStages unattended (fun stage => runOwn fuel Standing.plain [stage]) none stages
    modify (·.addJob place numbers)

/-- Waits for some processes, and leaves the status of the last. -/
def runWait : Nat → List Octets → Act Unit
  | 0, _ => starve ()
  | _ + 1, [] => pure ()
  | fuel + 1, target :: rest => do
    let s ← get
    let number ← match target with
      | '%' :: _ =>
        match Builtin.jobNamed s target with
        | .ok j => pure (some j.process)
        | .error e =>
          abort e
          pure none
      | digits => Builtin.numberOf digits
    match number with
    | none => pure ()
    | some n =>
      match s.jobs.find? fun j => j.process == n with
      | none => setStatus 127
      | some job =>
        let processes := if job.status.isNone then job.processes else []
        match ← awaitAlert processes with
        | some signal =>
          setStatus (128 + signal)
          return ()
        | none =>
          for ending in (← get).toWorld.endingsOf processes do tellEnding ending
          modify (·.collect)
          let ending? := ((← get).jobs.find? fun j => j.process == n).bind (·.status)
          modify fun s =>
            { s with
              status := ending?.elim 0 Ending.code
              jobs := s.jobs.map fun j => if j.process = n then { j with waited := true } else j }
      if (← get).flow = .running then runWait fuel rest

/-- Runs what the signals ask for that have been sent to this process. -/
def runSignals : Nat → Act Unit
  | 0 => starve ()
  | fuel + 1 => do
    let s ← get
    if s.flow ≠ .running then return ()
    match s.signals.find? fun p => p.1 == s.process with
    | none => pure ()
    | some (process, signal) =>
      set { s with signals := s.signals.erase (process, signal) }
      let isDeaf := signal != Signal.kill && s.deaf.contains signal
      match if isDeaf then some [] else if signal = Signal.kill then none else s.traps.lookup signal with
      | some action =>
        modify fun s => { s with leaving := s.leaving <|> some s.status, handlers := s.handlers + 1 }
        if maxHandlers ≤ s.handlers then modify fun s => { s with flow := .killed Signal.violation }
        runText fuel Standing.plain false action
        modify fun after =>
          { after with
            leaving := s.leaving
            handlers := s.handlers
            status := if after.flow = .running then s.status else after.status }
      | none =>
        if !Signal.isHarmless signal then modify fun s => { s with flow := .killed signal }
      runSignals fuel

/-- Runs the lines of a text. The flag says that lines are shown when they are read. -/
def runText : Nat → Standing → Bool → Octets → Act Unit
  | 0, _, _, _ => starve ()
  | fuel + 1, m, isFile, text => do
    runLines fuel m isFile false (Script.start text (← get).documents)

/-- Runs the lines that are left of a text. The second flag says that commands have been run: a text
without any succeeds. -/
def runLines : Nat → Standing → Bool → Bool → Reader.Cursor → Act Unit
  | 0, _, _, _, _ => starve ()
  | fuel + 1, m, isFile, ran, cursor => do
    let s ← get
    let cursor := { cursor with documents := s.documents }
    let shown := fun after : Octets =>
      if isFile && s.has 'v' then
        modify (·.report (cursor.rest.take (cursor.rest.length - after.length)))
      else pure ()
    match Script.next? (readingSteps s cursor.rest) s.aliases cursor with
    | .error failure =>
      shown []
      modify fun s => { s with line := failure.line }
      abort failure.problem.message
    | .ok none =>
      shown []
      if !ran then setStatus 0
    | .ok (some line) =>
      shown line.cursor.rest
      modify fun s => { s with documents := line.cursor.documents }
      runAll fuel { m with final := m.final && line.atEnd } line.commands
      if (← get).flow = .running then
        runLines fuel m isFile (ran || !line.commands.isEmpty) line.cursor

/-- Runs the lines of a file in the shell itself. -/
def runSource : Nat → List Octets → Act Unit
  | 0, _ => starve ()
  | fuel + 1, words => do
    match ← operands words with
    | none => pure ()
    | some [] => setStatus 0
    | some (path :: _) =>
      let s ← get
      let isFile := fun place : Octets =>
        match s.entryAt true place with
        | some (_, .file _ _) => true
        | _ => false
      let places := (s.directories.toList.splitOn ':').map fun place =>
        if place = [] then path else place ++ '/' :: path
      match if path.contains '/' then some path else places.find? isFile with
      | none => abort (Octets.toText path ++ ": not found")
      | some place =>
        match ← Act.openPath place .read with
        | .error e => abort (Lead.failure .read place e)
        | .ok stream =>
          modify fun s => { s with builtin := some place }
          awaitAll stream
          let text := ((← get).toWorld.pending stream).toOption.getD []
          runText fuel Standing.plain true text
          modify fun s => { s with flow := if s.flow = .returning then .running else s.flow }

def runLoop : Nat → Standing → Bool → List Command → List Command → Nat → Act Unit
  | 0, _, _, _, _, _ => starve ()
  | fuel + 1, m, endsOnSuccess, condition, body, last => do
    runAll fuel Standing.test condition
    let s ← get
    if s.flow != .running then
      let (goesOn, flow) := afterBody s.flow
      set { s with flow := flow, status := if flow = Flow.running then last else s.status }
      if goesOn then runLoop fuel m endsOnSuccess condition body last
    else if (s.status == 0) == endsOnSuccess then setStatus last
    else
      runAll fuel m body
      let s ← get
      let (goesOn, flow) := afterBody s.flow
      set { s with flow := flow }
      if goesOn then runLoop fuel m endsOnSuccess condition body s.status

def runEach : Nat → Standing → Octets → List Command → List Octets → Act Unit
  | 0, _, _, _, _ => starve ()
  | _ + 1, _, _, _, [] => pure ()
  | fuel + 1, m, name, body, item :: rest => do
    modify (·.assign name item)
    if (← get).flow = .running then
      runAll fuel m body
      let s ← get
      let (goesOn, flow) := afterBody s.flow
      set { s with flow := flow }
      if goesOn then runEach fuel m name body rest

/-- Runs the first arm with a pattern that covers a text. -/
def runChoice : Nat → Standing → Octets → List (List Word × List Command) → Act Unit
  | 0, _, _, _ => starve ()
  | _ + 1, _, _, [] => pure ()
  | fuel + 1, m, text, (patterns, body) :: rest => do
    let covered ← coversAny fuel text patterns
    if (← get).flow = .running then
      if covered then runAll fuel m body else runChoice fuel m text rest

def coversAny : Nat → Octets → List Word → Act Bool
  | 0, _, _ => starve false
  | _ + 1, _, [] => return false
  | fuel + 1, text, pattern :: rest => do
    let pieces ← expand fuel false (Tilde.expand (← get) false pattern)
    if (← get).flow != .running then return false
    if (Pattern.ofText (Piece.pattern pieces)).accepts text then return true
    else coversAny fuel text rest

/-- Becomes a shell with some words after its name. -/
def runShell : Nat → Octets → List Octets → Act Unit
  | 0, _, _ => starve ()
  | fuel + 1, self, words => do
    modify fun s => s.fresh self ((s.toWorld.process? s.process).elim 1 (·.parent))
    let (hasText, operands) ← startOptions (words.length + 1) false words
    if (← get).has 'i' then modify (·.complain "can't access tty; job control turned off")
    if (← get).flow = .running then
      if operands = [] && !hasText then modify fun s => { s with options := 's' :: s.options }
      let fromInput := (← get).has 's'
      match hasText, operands with
      | true, [] => abort "-c requires an argument"
      | true, text :: rest =>
        modify fun s => { s with name := rest.headD self, arguments := rest.drop 1 }
        runText fuel ⟨false, !fromInput⟩ false text
      | false, [] => runInput fuel
      | false, path :: rest =>
        if fromInput then
          modify fun s => { s with arguments := operands }
          runInput fuel
        else
          match ← Act.openPath path .read with
          | .error e => abort (Lead.failure .read path e)
          | .ok stream =>
            awaitAll stream
            modify fun s => { s with name := path, arguments := rest }
            runText fuel Standing.plain true (((← get).toWorld.pending stream).toOption.getD [])
    runLeave fuel

/-- Runs what is fed to a shell. -/
def runInput : Nat → Act Unit
  | 0 => starve ()
  | fuel + 1 => do
    awaitAll (((← get).channels.lookup 0).getD (← get).streams.size)
    let text := ((← get).pending 0).toOption.getD []
    modify (·.skip 0 text.length)
    runText fuel Standing.plain true text

/-- Runs what is to be run when a shell ends. -/
def runLeave : Nat → Act Unit
  | 0 => starve ()
  | fuel + 1 => do
    let s ← get
    match s.flow, s.traps.lookup 0 with
    | .killed _, _ | .starved, _ | _, none => pure ()
    | _, some action =>
      let status := s.leaving.getD s.status
      set { s with
        flow := .running
        traps := s.traps.filter fun p => p.1 != 0
        leaving := some status
        loops := 0 }
      runText fuel Standing.plain false action
      modify fun after => { after with status := after.leaving.getD status }

end

end BitcodeReplay.Shell
