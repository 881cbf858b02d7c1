import BitcodeReplay.Numeric.Generator
import BitcodeReplay.Tool.Awk.Record
import BitcodeReplay.Tool.Awk.Token
import BitcodeReplay.Tool.Starting

/-!
The state of a program that runs: its variables and tables, the present record, and what it reads from
and writes to.
-/

namespace BitcodeReplay.Tool.Awk

open Numeric (Signed)
open Shell

/-- What a variable of a function holds: a value, or a table by its place. -/
inductive Slot where
  | value (v : Value)
  | table (place : Nat)
  deriving DecidableEq, Repr

/-- What records are read from: a stream, what has been taken from it ahead, whether that is all, and
the process that writes into it. -/
structure Feed where
  stream : Nat
  ahead : Octets
  isAll : Bool
  child : Option Nat

/-- What is written to: the output of the program, or a stream, with what is still held back, the last
first, and the process that reads it. -/
structure Sink where
  target : Target
  name : Octets
  stream : Option Nat
  child : Option Nat
  held : List Octets
  size : Nat

/-- The present record. `fields` are known once they have been asked for, and `stale` says that the text
has to be put together from them. -/
structure Current where
  text : Octets
  fields : Option (Array Value)
  stale : Bool

/-- Why a program leaves what it does. -/
inductive Stop where
  | next
  | nextFile
  | exit
  | failed (message : Octets)
  | ended
  deriving DecidableEq, Repr

structure Machine where
  shared : Array Value
  frame : Array Slot
  tables : Array (Table Value)
  ranges : Array Bool
  record : Current
  input : Option Feed
  begun : Bool
  argument : Nat
  feeds : List (Origin × Octets × Feed)
  sinks : List Sink
  patterns : List (Octets × Text.Regex)
  generator : Numeric.Generator
  seed : Value
  result : Value
  status : Nat

abbrev Run := ExceptT Stop (StateT Machine Act)

namespace Run

def session : Run Session := liftM (get : Act Session)

def act {α : Type} (a : Act α) : Run α := liftM a

/-- Ends the program with a complaint. -/
def fail {α : Type} (message : Octets) : Run α := throw (.failed message)

/-- Lets time go by, and ends the program if its process has ended. -/
def tick : Run Unit := do
  act Act.tick
  if (← session).flow != .running then throw .ended

/-- The value of a variable of the program that is known to all programs. -/
def known (name : String) : Run Value := return (← get).shared.getD (placeOf name) .unset

/-- How numbers are written when they become texts. -/
def conversion : Run Octets := do
  match ← known "CONVFMT" with
  | .text t => return t
  | v => return v.toText (text "%.6g")

def textOf (v : Value) : Run Octets := do
  match v with
  | .number n => return numberText (← conversion) n
  | .text t | .given t => return t
  | .unset => return []

/-- The text of a value that is printed. -/
def shownText (v : Value) : Run Octets := do
  match v with
  | .number n =>
    match shownWhole? n with
    | some i => return wholeText i
    | none => return numberText (← textOf (← known "OFMT")) n
  | v => textOf v

/-- What is said of a mistake that comes up while a program runs. -/
def mistake (what : Octets) : Run Octets := do
  let name ← textOf (← known "FILENAME")
  let count := fun v : Value => wholeText ((v.toNumber.truncated?).getD 0)
  return text "run time error: " ++ what ++ text "\n\tFILENAME=\"" ++ name ++ text "\" FNR=" ++
    count (← known "FNR") ++ text " NR=" ++ count (← known "NR")

/-- The expression of a text, which is kept for the next time. -/
def pattern (t : Octets) : Run Text.Regex := do
  match (← get).patterns.lookup t with
  | some r => return r
  | none =>
    match Pattern.read t with
    | .ok r =>
      modify fun m => { m with patterns := (t, r) :: m.patterns.take 30 }
      return r
    | .error e =>
      fail (← mistake (text ("regular expression compile failed (" ++ e.message ++ ")\n") ++ t))

/-- The separator that a text writes. -/
def separatorOf (t : Octets) : Run Separator := do
  match t with
  | [] => return .nothing
  | [c] => return if c = ' ' then .blanks else .one c
  | _ => return .regex (← pattern t)

/-- What ends a record now. -/
def ender : Run Ender := do
  match ← textOf (← known "RS") with
  | [] => return .paragraph
  | [c] => return .one c
  | t => return .regex (← pattern t)

def putKnown (name : String) (v : Value) : Run Unit :=
  modify fun m => { m with shared := m.shared.set! (placeOf name) v }

/-- The fields of the present record. -/
def fields : Run (Array Value) := do
  match (← get).record.fields with
  | some all => return all
  | none =>
    let separator ← separatorOf (← textOf (← known "FS"))
    let all := ((separator.fields (← get).record.text).map Value.given).toArray
    modify fun m => { m with record := { m.record with fields := some all } }
    return all

/-- The text of the present record. -/
def recordText : Run Octets := do
  let r := (← get).record
  if r.stale then
    let mut parts := #[]
    for v in r.fields.getD #[] do
      parts := parts.push (← textOf v)
    let t := List.intercalate (← textOf (← known "OFS")) parts.toList
    modify fun m => { m with record := { m.record with text := t, stale := false } }
    return t
  else return r.text

def setRecord (t : Octets) : Run Unit := modify fun m => { m with record := ⟨t, none, false⟩ }

/-- The most fields that a record may have. -/
def maxFields : Nat := 32767

/-- The place of a field, which must not be negative. -/
def fieldPlace (v : Value) : Run Nat := do
  let n := (v.toNumber.truncated?).getD 0
  if n < 0 then fail (← mistake (text "negative field index $" ++ wholeText n))
  else return min n.toNat maxFields

def field (place : Nat) : Run Value := do
  if place = 0 then return .given (← recordText)
  else return (← fields).getD (place - 1) (.text [])

/-- Gives the record so many fields. -/
def setCount (count : Nat) : Run Unit := do
  let all ← fields
  let all := if all.size < count then all ++ Array.replicate (count - all.size) (.text []) else all.extract 0 count
  modify fun m => { m with record := { m.record with fields := some all, stale := true } }

def setField (place : Nat) (v : Value) : Run Unit := do
  if place = 0 then setRecord (← textOf v)
  else
    let all ← fields
    if all.size < place then setCount place
    modify fun m => { m with
      record := { m.record with fields := m.record.fields.map (·.set! (place - 1) v), stale := true } }

/-- The place of the table that a variable stands for. A variable of a function that holds nothing yet
gets a new one. -/
def tableOf (v : Var) : Run Nat := do
  match v with
  | .shared i => return i
  | .own i =>
    let m ← get
    match m.frame.getD i (.value .unset) with
    | .table n => return n
    | .value _ =>
      let n := m.tables.size
      set { m with tables := m.tables.push .empty, frame := m.frame.set! i (.table n) }
      return n

/-- Does something with a table. -/
def withTable {α : Type} (place : Nat) (f : Table Value → α × Table Value) : Run α :=
  modifyGet fun m =>
    let t := m.tables.getD place .empty
    let m := { m with tables := m.tables.set! place .empty }
    let (a, t) := f t
    (a, { m with tables := m.tables.set! place t })

def variableValue (v : Var) : Run Value := do
  match v with
  | .shared i =>
    if i = placeOf "NF" then return .ofNat (← fields).size
    else return (← get).shared.getD i .unset
  | .own i =>
    match (← get).frame.getD i (.value .unset) with
    | .value v => return v
    | .table _ => return .unset

def setVariable (v : Var) (value : Value) : Run Unit := do
  match v with
  | .own i => modify fun m => { m with frame := m.frame.set! i (.value value) }
  | .shared i =>
    if i = placeOf "NF" then
      let n := (value.toNumber.truncated?).getD 0
      if n < 0 then fail (← mistake (text "negative value assigned to NF"))
      setCount (min n.toNat maxFields)
    else
      if i = placeOf "FS" then let _ ← fields
      modify fun m => { m with shared := m.shared.set! i value }

/-- The key that some values make. -/
def keyOf (values : List Value) : Run Key := do
  match values with
  | [v] => return v.key (← conversion)
  | _ =>
    let mut parts := #[]
    for v in values do
      parts := parts.push (← textOf v)
    return .text (List.intercalate (← textOf (← known "SUBSEP")) parts.toList)

/-- How much is held back before it is written. -/
def bufferSize : Nat := 4096

/-- Writes what a sink holds back, or only whole blocks of it. -/
def release (all : Bool) (s : Sink) : Run Sink := do
  let ready := if all then s.size else s.size - s.size % bufferSize
  if ready = 0 then return s
  let held := s.held.reverse.flatten
  let now := held.take ready
  act (match s.stream with
    | none => Act.put now
    | some n => Act.writeTo n now)
  if (← session).flow != .running then throw .ended
  return { s with held := if ready = s.size then [] else [held.drop ready], size := s.size - ready }

/-- Writes all that is held back. -/
def releaseAll : Run Unit := do
  let sinks := (← get).sinks
  let mut done := #[]
  for s in sinks do
    done := done.push (← release true s)
  modify fun m => { m with sinks := done.toList }

/-- Starts a command of the shell with one of its channels led to a stream. -/
def startCommand (start : Starter) (channel stream : Nat) (command : Octets) : Run Nat :=
  act (Act.fork (·.lead channel (some stream))
    (become start (text "couldn't run ") [text "/bin/sh", text "-c", command]))

/-- What the end of a process is told as. -/
def endingCode : Ending → Nat
  | .status n => n
  | .signal n => 256 + n

def hold (stream : Nat) : Run Unit :=
  act (modify fun s : Session => { s with aside := stream :: s.aside })

def letGo (stream : Nat) : Run Unit :=
  act (modify fun s : Session => { s with aside := s.aside.erase stream })

/-- Opens what is written to. -/
def openSink (start : Starter) (target : Target) (name : Octets) : Run Sink := do
  match target with
  | .command =>
    releaseAll
    let (w, into, out) := (← session).toWorld.openPipe .empty
    act (modify fun s : Session => { s with toWorld := w })
    let child ← startCommand start 0 out name
    hold into
    return ⟨target, name, some into, some child, [], 0⟩
  | _ =>
    if name = text "/dev/stdout" || name = ['-'] then return ⟨target, name, none, none, [], 0⟩
    match ← act (Act.openPath name (if target == .behind then .append else .write)) with
    | .ok stream => return ⟨target, name, some stream, none, [], 0⟩
    | .error e =>
      fail (text "cannot open \"" ++ name ++ text ("\" for output (" ++ errorText e ++ ")"))

def isStandard (name : Octets) : Bool := name == text "/dev/stdout" || name == ['-']

/-- Writes to a file or a command, which is opened if it has not been. -/
def emit (start : Starter) (to? : Option (Target × Octets)) (t : Octets) : Run Unit := do
  let (target, name) := to?.getD (.file, text "/dev/stdout")
  let name := if target != .command && isStandard name then text "/dev/stdout" else name
  let fits := fun s : Sink => s.name == name && (s.target == .command) == (target == .command)
  let sink ← match (← get).sinks.find? fits with
    | some s => pure s
    | none => openSink start target name
  let sink := { sink with held := t :: sink.held, size := sink.size + t.length }
  let sink ← release (target != .command && name == text "/dev/stderr") sink
  modify fun m => { m with sinks := sink :: m.sinks.filter fun s => !fits s }

/-- Closes a sink, and what its process left. -/
def closeSink (s : Sink) : Run Nat := do
  let s ← release true s
  match s.stream, s.child with
  | some stream, some child =>
    letGo stream
    return endingCode (← act (awaitEnding child))
  | some stream, none =>
    letGo stream
    return 0
  | none, _ => return 0

/-- Closes what is read from, and what its process left. -/
def closeFeed (f : Feed) : Run Nat := do
  letGo f.stream
  match f.child with
  | some child => return endingCode (← act (awaitEnding child))
  | none => return 0

/-- Closes all that is known under a name. -/
def close (name : Octets) : Run Int := do
  let m ← get
  let mine := fun s : Sink => s.name == name
  let fed := m.feeds.filter fun f => f.2.1 == name
  set { m with
    sinks := m.sinks.filter fun s => !mine s
    feeds := m.feeds.filter fun f => f.2.1 != name }
  let mut result : Int := -1
  for s in m.sinks.filter mine do result := (← closeSink s)
  for f in fed do result := (← closeFeed f.2.2)
  return result

/-- Ends everything that is written to: the commands, which are waited for, and then all else. -/
def closeAll : Run Unit := do
  let sinks := (← get).sinks
  modify fun m => { m with sinks := sinks.filter fun s => s.child.isNone }
  for s in sinks do
    if s.child.isSome then let _ ← closeSink s
  releaseAll

/-- Takes more from a stream ahead. -/
def fill (f : Feed) : Run Feed := do
  act (Act.awaitInput f.stream fun p => bufferSize ≤ p.size)
  let s ← session
  if s.flow != .running then throw .ended
  let found := s.toWorld.peek f.stream bufferSize
  if found = [] then
    match s.toWorld.pending f.stream with
    | .error e => fail (text ("read error (" ++ e.message ++ ")"))
    | .ok _ => pure ()
  act (modify fun s : Session => s.modifyWorld fun w => w.skip f.stream found.length)
  return { f with ahead := f.ahead ++ found, isAll := found.length < bufferSize }

/-- The next record, and what is left. The first argument bounds how often more is taken. -/
def recordFrom (e : Ender) : Nat → Feed → Run (Option Octets × Feed)
  | 0, f => return (none, f)
  | bound + 1, f => do
    match e.record? f.isAll f.ahead with
    | some (t, rest) => return (some t, { f with ahead := rest })
    | none =>
      if f.isAll then return (none, { f with ahead := [] })
      else recordFrom e bound (← fill f)

/-- The next record, and what is left. -/
def nextFrom (f : Feed) : Run (Option Octets × Feed) := do
  recordFrom (← ender) Act.endless f

/-- The feed of a file. -/
def openFile (name : Octets) : Run (Except FileError Feed) := do
  let name := if name = text "/dev/stdin" then ['-'] else name
  match ← act (openInput name) with
  | .ok stream => return .ok ⟨stream, [], false, none⟩
  | .error (.unopened e) => return .error e
  | .error (.unreadable _) => return .error .notFound

/-- The feed of what a command writes. -/
def openCommand (start : Starter) (command : Octets) : Run Feed := do
  releaseAll
  let (w, into, out) := (← session).toWorld.openPipe .empty
  act (modify fun s : Session => { s with toWorld := w })
  let child ← startCommand start 1 into command
  hold out
  return ⟨out, [], false, some child⟩

/-- A name and a value, if a word gives a variable one. -/
def assignment? (word : Octets) : Option (Octets × Octets) :=
  let name := word.takeWhile Token.isNameChar
  match name, word.drop name.length with
  | c :: _, '=' :: value =>
    if Text.isDigit c then none else some (name, Token.unescape (value.length + 1) value)
  | _, _ => none

/-- Gives a variable of the program a value, if it has such a variable. -/
def assignNamed (p : Program) (name value : Octets) : Run Unit := do
  match p.shared.idxOf? (String.ofList name) with
  | some i => setVariable (.shared i) (.given value)
  | none => pure ()

/-- Goes on to the next input that the arguments name; the input of the program if they name none.
The first argument bounds them. -/
def openNext (p : Program) : Nat → Run (Option Feed)
  | 0 => return none
  | bound + 1 => do
    let m ← get
    let count := ((← known "ARGC").toNumber.truncated?).getD 0
    let begin := fun (name : Octets) (f : Feed) => do
      modify fun m => { m with begun := true }
      putKnown "FILENAME" (.text name)
      putKnown "FNR" (.ofNat 0)
      return some f
    let input := do
      match ← openFile ['-'] with
      | .ok f => begin ['-'] f
      | .error _ => return none
    if (m.argument : Int) < count then
      set { m with argument := m.argument + 1 }
      let key := Key.number m.argument
      let v ← withTable (placeOf "ARGV") fun t =>
        let (isThere, t) := t.has key
        if isThere then t.take key .unset else (.unset, t)
      let name ← textOf v
      if name = [] then openNext p bound
      else
        match assignment? name with
        | some (name, value) =>
          assignNamed p name value
          openNext p bound
        | none =>
          if name = ['-'] then input
          else
            match ← openFile name with
            | .ok f => begin name f
            | .error e => fail (text "cannot open " ++ name ++ text (" (" ++ errorText e ++ ")"))
    else if m.begun then return none
    else input

/-- The next record of the input of the program. The first argument bounds the files. -/
def nextRecord (p : Program) : Nat → Run (Option Octets)
  | 0 => return none
  | bound + 1 => do
    match (← get).input with
    | none =>
      match ← openNext p Act.endless with
      | none => return none
      | some f =>
        modify fun m => { m with input := some f }
        nextRecord p bound
    | some f =>
      modify fun m => { m with input := none }
      let (found, f) ← nextFrom f
      match found with
      | some t =>
        modify fun m => { m with input := some f }
        return some t
      | none => nextRecord p bound

/-- Counts a record. -/
def count (name : String) : Run Unit := do
  putKnown name (.number ((← known name).toNumber.add (.ofNat 1)))

end Run

end BitcodeReplay.Tool.Awk
