import BitcodeReplay.Numeric.Reading
import BitcodeReplay.Shell.Fork
import BitcodeReplay.Shell.Signal
import BitcodeReplay.Tool.Entry

/-!
The tools that start other programs: in other surroundings, for a limited time, or with words that
they read.
-/

namespace BitcodeReplay.Tool

open Shell

/-- How a tool starts another program in its place: by its name, and with words. -/
abbrev Starter := Octets → List Octets → Act (Except FileError Unit)

/-- Starts a program in the place of a tool, which complains if there is none. -/
def become (start : Starter) (complaint : Octets) (words : List Octets) : Act Unit := do
  match ← start (words.headD []) (words.drop 1) with
  | .ok () => pure ()
  | .error e =>
    failWith (if e = .notFound then 127 else 126)
      (complaint ++ Quote.always (words.headD []) ++ text (": " ++ errorText e))

/-- The name and the value of a word that gives a variable one. -/
def bindingOf? (word : Octets) : Option (Octets × Octets) :=
  if word.contains '=' then
    let name := word.takeWhile (· != '=')
    some (name, word.drop (name.length + 1))
  else none

/-- The variables of a process, each as a word. -/
def environmentWords (s : Session) : List Octets :=
  s.bindings.filterMap fun (name, v) =>
    if v.exported then v.value.map fun value => name ++ '=' :: value else none

/-- A text of words, with quotes and backslashes, in words. -/
def wordsOfText (bound : Nat) (current : Option Octets) : Octets → List Octets
  | [] => current.toList
  | c :: rest =>
    match bound with
    | 0 => current.toList
    | bound + 1 =>
      let add := fun (more rest : Octets) => wordsOfText bound (some (current.getD [] ++ more)) rest
      if c = ' ' || c = '\t' || c = '\n' then current.toList ++ wordsOfText bound none rest
      else if c = '\'' || c = '"' then
        let inner := rest.takeWhile (· != c)
        add inner (rest.drop (inner.length + 1))
      else if c = '\\' then add (rest.take 1) (rest.drop 1)
      else add [c] rest

def envTable : OptionTable :=
  .ofOrdered "C:iS:u:v0"
    [("chdir", "C", .required), ("ignore-environment", "i", .nothing), ("null", "0", .nothing),
      ("split-string", "S", .required), ("unset", "u", .required), ("debug", "v", .nothing)]

/-- The words of `env` with a text of words among them taken apart. -/
def splitWords : List Octets → List Octets
  | ['-', 'S'] :: t :: rest => wordsOfText (t.length + 1) none t ++ rest
  | ('-' :: 'S' :: t) :: rest => wordsOfText (t.length + 1) none t ++ rest
  | words => words

def env (start : Starter) (words : List Octets) : Act Unit :=
  withOptionsOr 125 envTable (splitWords words) fun given operands => do
    let bare := operands.head? = some ['-']
    let operands := if bare then operands.drop 1 else operands
    if given.has "i" || bare then modify fun s => { s with bindings := [] }
    for name in given.all "u" do modify fun s => s.bind name none
    let bindings := operands.takeWhile fun word => word.contains '='
    for word in bindings do
      if let some (name, value) := bindingOf? word then
        modify fun s => s.bind name (some ⟨some value, true, false⟩)
    let command := operands.drop bindings.length
    let s ← get
    match given.last? "C", command with
    | some path, _ :: _ =>
      match lookAt s true path with
      | .ok ⟨loc, .dir⟩ =>
        set { s with directory := (locationText loc).toText }
        become start [] command
      | .ok _ => failWith 125 (text "cannot change directory to " ++ Quote.always path ++
          text (": " ++ errorText .notADirectory))
      | .error e => failWith 125 (text "cannot change directory to " ++ Quote.always path ++
          text (": " ++ errorText e))
    | some _, [] => misused 125 (text "must specify command with --chdir (-C)")
    | none, [] =>
      let ending := if given.has "0" then ['\x00'] else ['\n']
      Act.put ((environmentWords s).flatMap (· ++ ending))
    | none, _ :: _ =>
      if given.has "0" then misused 125 (text "cannot specify --null (-0) with command")
      else become start [] command

def printenv (words : List Octets) : Act Unit :=
  withOptionsOr 2 (.ofOrdered "0" [("null", "0", .nothing)]) words fun given operands => do
    let s ← get
    let ending := if given.has "0" then ['\x00'] else ['\n']
    if operands = [] then Act.put ((environmentWords s).flatMap (· ++ ending))
    for name in operands do
      match (s.bound? name).bind (·.value) with
      | some value => Act.put (value ++ ending)
      | none => Act.setStatus 1

def nice (start : Starter) (words : List Octets) : Act Unit :=
  let words := match words with
    | ('-' :: c :: more) :: rest =>
      if Text.isDigit c || (c = '-' && more.head?.any Text.isDigit) then ['-', 'n'] :: (c :: more) :: rest
      else words
    | _ => words
  withOptionsOr 125 (.ofOrdered "n:" [("adjustment", "n", .required)]) words
    fun given operands => do
      let wrong := (given.all "n").filter fun w => (Arithmetic.decimalValue? w).isNone
      match wrong, operands with
      | word :: _, _ => failWith 125 (text "invalid adjustment " ++ Quote.always word)
      | [], [] =>
        if given.has "n" then misused 125 (text "a command must be given with an adjustment")
        else Act.putLine ['0']
      | [], _ => become start [] operands

def nohup (start : Starter) (words : List Octets) : Act Unit :=
  withOptionsOr 125 (.ofOrdered "" []) words fun _ operands => do
    if operands = [] then misused 125 (text "missing operand")
    else
      modify fun s => { s with deaf := 1 :: s.deaf }
      become start (text "failed to run command ") operands

/-- How `timeout` watches over a process: the signal it sends, how much later it ends the process if
that does not help, and what it tells. -/
structure Watch where
  child : Nat
  signal : Nat
  killAfter : Option Nat
  group : Bool
  verbose : Bool
  command : Octets

/-- Sends a signal to a process that is watched, and to all others in the group of this one. -/
def Watch.send (h : Watch) (signal : Nat) : Act Unit := do
  if h.verbose then
    let name := if signal = 0 then ['0'] else text (Signal.name signal)
    say (text "sending signal " ++ name ++ text " to command " ++ Quote.always h.command)
  modify fun s =>
    let members := s.processes.filter fun p =>
      p.number == h.child || (h.group && p.group == s.group && p.number != s.process)
    let proceeds := h.group && signal != Signal.kill && signal != Signal.proceed
    { s with
      signals := s.signals ++ members.map (fun p => (p.number, signal)) ++
        if proceeds then members.map fun p => (p.number, Signal.proceed) else []
      flow := if h.group && signal = Signal.kill then .killed signal else s.flow }

/-- Waits for a process until a time, if one is given, and how it ended and whether the time was over
before. Signals that come go to the process. The first argument bounds how many. -/
def Watch.await (h : Watch) (late : Bool) (time : Option Int) : Nat → Act (Ending × Bool)
  | 0 => return (.status 0, late)
  | bound + 1 => do
    let isOver := fun w : World => w.hasEnded h.child
    Act.pause ⟨isOver, time, true⟩
    let s ← get
    if isOver s.toWorld then return (← awaitEnding h.child, late)
    let (signal, late) := match s.signals.find? fun p => p.1 == s.process with
      | some (_, signal) => (signal, late)
      | none => (h.signal, true)
    set { s with signals := s.signals.erase (s.process, signal) }
    h.send signal
    if (← get).flow != .running then return (.status 0, late)
    let next := h.killAfter.map fun delay => s.clock + delay
    let h := { h with killAfter := none, signal := if next.isSome then Signal.kill else h.signal }
    h.await late next bound

def timeout (start : Starter) (words : List Octets) : Act Unit :=
  let table := OptionTable.ofOrdered "k:s:vf"
    [("foreground", "f", .nothing), ("kill-after", "k", .required),
      ("preserve-status", "p", .nothing), ("signal", "s", .required), ("verbose", "v", .nothing)]
  withOptionsOr 125 table words fun given operands => do
    let signal? := match given.last? "s" with
      | none => some Signal.terminate
      | some name =>
        let name := name.map Char.toUpper
        Signal.number? 0 (if (text "SIG").isPrefixOf name then name.drop 3 else name)
    let interval := fun word : Octets => misused 125 (text "invalid time interval " ++ Quote.always word)
    let later? := (given.last? "k").map fun word => (word, Delay.ofWord? word)
    match later?, operands, signal? with
    | some (word, none), _, _ => interval word
    | _, _, none => misused 125 (Quote.always ((given.last? "s").getD []) ++ text ": invalid signal")
    | _, [], _ | _, [_], _ => hint 125
    | _, limit :: command, some signal =>
      match Delay.ofWord? limit with
      | none => interval limit
      | some delay =>
        let alone := !given.has "f"
        if alone then
          modify fun s => s.modifyWorld fun w =>
            w.modifyProcess s.process fun p => { p with group := p.number }
        let name := command.headD []
        let child ← Act.fork id (become start (text "failed to run command ") command)
        modify fun s =>
          { s with traps := [1, 2, 3, Signal.terminate, signal].map fun n => (n, [' ']) }
        let h : Watch :=
          ⟨child, signal, (later?.bind (·.2)).filter (· != 0), alone, given.has "v", name⟩
        let now := (← get).clock
        let time := if delay = 0 then none else some (now + delay)
        let (ending, late) ← h.await false time Act.endless
        modify fun s =>
          match s.flow, ending with
          | .killed _, _ | .starved, _ => s
          | _, .signal n =>
            if !late then { s with flow := .killed n }
            else { s with status := if given.has "p" || n = Signal.kill then 128 + n else 124 }
          | _, .status n => { s with status := if late && !given.has "p" then 124 else n }

/-- Why words cannot be read. -/
inductive WordFailure where
  | openQuote (double : Bool)
  deriving DecidableEq, Repr

def WordFailure.message : WordFailure → Octets
  | .openQuote double =>
    text (if double then "unmatched double quote" else "unmatched single quote") ++
      text "; by default quotes are special to xargs unless you use the -0 option"

/-- The words of a text, each with the number of the line on which it stands. Quotes and backslashes
keep blanks in words. A blank at the end of a line joins it to the next. -/
def inputWords (bound line : Nat) (lineBound : Bool) (current : Option Octets) (t : Octets) :
    Except WordFailure (List (Octets × Nat)) :=
  match bound, t with
  | 0, _ | _, [] => .ok (current.toList.map fun word => (word, line))
  | bound + 1, c :: rest =>
    let done := current.toList.map fun word => (word, line)
    if c = '\n' then do
      return done ++ (← inputWords bound (line + 1) lineBound none rest)
    else if c = ' ' || c = '\t' then
      let more := rest.dropWhile fun c => c == ' ' || c == '\t'
      match lineBound, more with
      | true, '\n' :: more => do return done ++ (← inputWords bound line lineBound none more)
      | _, _ => do return done ++ (← inputWords bound line lineBound none more)
    else if c = '\'' || c = '"' then
      let inner := rest.takeWhile fun x => x != c && x != '\n'
      if (rest.drop inner.length).head? = some c then
        inputWords bound line lineBound (some (current.getD [] ++ inner))
          (rest.drop (inner.length + 1))
      else .error (.openQuote (c == '"'))
    else if c = '\\' then
      inputWords bound line lineBound (some (current.getD [] ++ rest.take 1)) (rest.drop 1)
    else inputWords bound line lineBound (some (current.getD [] ++ [c])) rest

/-- The lines of a text that are not blank, without blanks before them, and with quotes taken away. -/
def inputLines (t : Octets) : Except WordFailure (List Octets) :=
  (t.lines.map fun line => line.dropWhile fun c => c == ' ' || c == '\t').filter (· ≠ []) |>.mapM
    fun line => do
      let marked := line.map fun c => if c = ' ' then '\x01' else if c = '\t' then '\x02' else c
      let words ← inputWords (marked.length + 1) 0 false none marked
      return ((words.map (·.1)).flatten).map fun c =>
        if c = '\x01' then ' ' else if c = '\x02' then '\t' else c

/-- Words in groups of at most so many. -/
def groupsOf (size bound : Nat) (words : List Octets) : List (List Octets) :=
  match bound, words with
  | 0, _ | _, [] => []
  | bound + 1, words => words.take size :: groupsOf size bound (words.drop size)

/-- Puts a word in the place of each mark in another. -/
def substitute (mark word : Octets) (bound : Nat) (t : Octets) : Octets :=
  match bound with
  | 0 => t
  | bound + 1 =>
    match Text.cut? mark t with
    | some (before, after) => if mark = [] then t else before ++ word ++ substitute mark word bound after
    | none => t

/-- Runs one command, and tells whether to go on. What it reads is empty. -/
def runOne (start : Starter) (traced : Bool) (command : List Octets) : Act Bool := do
  if traced then
    modify fun s => s.report (List.intercalate [' '] (command.map Quote.ifNeeded) ++ ['\n'])
  let before ← get
  let name := command.headD []
  let ending ← forked do
    modify fun s => s.connect 0 (Session.streamOn .null .read)
    match ← start name (command.drop 1) with
    | .ok () => pure ()
    | .error e =>
      failWith (if e = .notFound then 127 else 126)
        ((if name = [] then [] else Quote.ifNeeded name) ++ text (": " ++ errorText e))
  match ending with
  | .signal n =>
    failWith 125 (name ++ text ": terminated by signal " ++ Octets.ofNat n)
    return false
  | .status status =>
    if status = 255 then
      failWith 124 (name ++ text ": exited with status 255; aborting")
      return false
    if status = 126 || status = 127 then return false
    Act.setStatus (if status = 0 then before.status else 123)
    return (← get).flow = .running

def runEachOf (start : Starter) (traced : Bool) : List (List Octets) → Act Unit
  | [] => pure ()
  | command :: rest => do if ← runOne start traced command then runEachOf start traced rest

def xargsTable : OptionTable :=
  .ofOrdered "0a:d:E:I:i::L:l::n:oP:prs:tx"
    [("null", "0", .nothing), ("arg-file", "a", .required), ("delimiter", "d", .required),
      ("replace", "i", .optional), ("max-lines", "l", .optional), ("max-args", "n", .required),
      ("max-procs", "P", .required), ("interactive", "p", .nothing),
      ("no-run-if-empty", "r", .nothing), ("max-chars", "s", .required), ("verbose", "t", .nothing),
      ("exit", "x", .nothing)]

/-- Words of one line each, in groups of so many lines. -/
def groupsOfLines (lines : Nat) (words : List (Octets × Nat)) : List (List Octets) :=
  let numbers := (words.map (·.2)).foldl (fun seen n => if seen.contains n then seen else seen ++ [n]) []
  let blocks := (List.range ((numbers.length + lines - 1) / lines)).map fun i =>
    (numbers.drop (i * lines)).take lines
  blocks.map fun block => (words.filter fun w => block.contains w.2).map (·.1)

/-- A delimiter, which may be written as an escape. -/
def delimiterOf (word : Octets) : Char :=
  match word with
  | ['\\', 'n'] => '\n'
  | ['\\', 't'] => '\t'
  | ['\\', '0'] => '\x00'
  | c :: _ => c
  | [] => '\n'

def xargs (start : Starter) (words : List Octets) : Act Unit :=
  withOptionsOr 1 xargsTable words fun given operands => do
    let command := if operands = [] then [text "echo"] else operands
    let mark? := match given.lastOf? ["I", "i"] with
      | some "I" => given.last? "I"
      | some _ => some (if (given.last? "i").getD [] = [] then ['\x7b', '\x7d'] else (given.last? "i").getD [])
      | none => none
    let number := fun key => (given.last? key).bind decimalOf?
    let wrong := ["n", "L", "P", "s"].filterMap fun key =>
      (given.last? key).bind fun w => if (decimalOf? w).isNone then some (key, w) else none
    let zero := ["n", "L"].filter fun key => number key = some 0
    match wrong, zero with
    | (key, word) :: _, _ =>
      misused 1 (text "invalid number \"" ++ word ++ text ("\" for -" ++ key ++ " option"))
    | [], key :: _ =>
      misused 1 (text ("value 0 for -" ++ key ++ " option should be >= 1"))
    | [], [] =>
      let path := (given.last? "a").getD ['-']
      match ← contentOf path with
      | .error e => fail (text "Cannot open input file " ++ Quote.always path ++ text (": " ++ e.reason))
      | .ok found =>
        let separated := fun (c : Char) =>
          let parts := found.splitOn c
          (if parts.getLast? = some [] then parts.dropLast else parts).zipIdx
        let lineBound := given.has "L" || given.has "l"
        let words : Except WordFailure (List (Octets × Nat)) :=
          match given.lastOf? ["0", "d"], mark? with
          | some "0", _ => .ok (separated '\x00')
          | some _, _ => .ok (separated (delimiterOf ((given.last? "d").getD [])))
          | none, some _ => (inputLines found).map (·.zipIdx)
          | none, none => inputWords (found.length + 1) 0 lineBound none found
        match words with
        | .error e => fail e.message
        | .ok words =>
          let ending := given.last? "E"
          let words := words.takeWhile fun w => some w.1 != ending
          let traced := given.has "t" || given.has "p"
          match mark? with
          | some mark =>
            runEachOf start traced (words.map fun w =>
              command.map fun part => substitute mark w.1 (part.length + 1) part)
          | none =>
            let plain := words.map (·.1)
            let groups := match given.lastOf? ["n", "L", "l"] with
              | some "n" => groupsOf ((number "n").getD 1) (plain.length + 1) plain
              | some "L" => groupsOfLines ((number "L").getD 1) words
              | some _ => groupsOfLines (((given.last? "l").bind decimalOf?).getD 1) words
              | none => if plain = [] then [] else [plain]
            let groups := if groups = [] && !given.has "r" then [[]] else groups
            runEachOf start traced (groups.map (command ++ ·))
where
  /-- A number of an option. -/
  decimalOf? (word : Octets) : Option Nat := Session.decimal? word

end BitcodeReplay.Tool
