import BitcodeReplay.Text.Search
import BitcodeReplay.Tool.Awk.Machine
import BitcodeReplay.Tool.Moment

/-!
What the expressions of a program are worth, and what its statements do.
-/

namespace BitcodeReplay.Tool.Awk

open Numeric (Signed)
open Shell

/-- What an expression can give a value to. -/
inductive Place where
  | variable (v : Var)
  | element (table : Nat) (key : Key)
  | field (n : Nat)

/-- Where a program goes on behind a statement. -/
inductive Onward where
  | done
  | broken
  | again
  | left
  deriving DecidableEq, Repr

namespace Run

def valueAt (p : Place) : Run Value := do
  match p with
  | .variable v => variableValue v
  | .element n key => withTable n fun t => t.take key .unset
  | .field n => field n

def putAt (p : Place) (v : Value) : Run Unit := do
  match p with
  | .variable x => setVariable x v
  | .element n key => withTable n fun t => ((), t.put key v)
  | .field n => setField n v

/-- The expression that stands in parentheses. -/
def bare : Expr → Expr
  | .group [e] => bare e
  | e => e

/-- The whole number nearest to another; of two the even one. -/
def nearest (n : Signed) : Int :=
  match n.ratio? with
  | some (num, den) =>
    let low := num / den
    let rest := 2 * (num % den)
    if rest < den || (rest = den && low % 2 = 0) then low else low + 1
  | none => if n.isUndefined then 0 else if n.negative then -(Nat.pow 2 60 : Int) else Nat.pow 2 60

/-- The part of a text from a character on, counted from one, with so many characters. -/
def part (t : Octets) (start : Signed) (count : Option Signed) : Octets :=
  let first := nearest start
  let past := match count with
    | some n => first + nearest n
    | none => t.length + 1
  let from_ := max first 1
  if past ≤ from_ then [] else (t.drop (from_ - 1).toNat).take (past - from_).toNat

def ofTruth (b : Bool) : Value := .ofBool b

/-- The result of looking for an expression in a text, which is also kept in variables. -/
def lookFor (r : Text.Regex) (t : Octets) : Run Value := do
  let (start, length) : Int × Int := match r.find? look t.toArray 0 with
    | some m => (m.start + 1, m.stop - m.start)
    | none => (0, -1)
  putKnown "RSTART" (.ofInt start)
  putKnown "RLENGTH" (.ofInt length)
  return .ofInt start

/-- The moment that a text of numbers writes, in seconds; nothing if it is none. -/
def momentOf (t : Octets) : Option Int :=
  match ((Separator.words t.length t).mapM fun w => Moment.integer? w) with
  | some (year :: month :: day :: hour :: minute :: second :: _) =>
    let months := year * 12 + (month - 1)
    let start : Moment := ⟨months / 12, (months % 12).toNat + 1, 1, 0, 0, 0, 0⟩
    some ((((start.days + day - 1) * 24 + hour) * 60 + minute) * 60 + second)
  | _ => none

/-- The time in seconds. -/
def seconds : Run Int := return (← session).clock / 1000000

/-- Runs a command of the shell, and how it ended. -/
def system (start : Starter) (command : Octets) : Run Nat := do
  releaseAll
  let child ← act (Act.fork id
    (become start (text "couldn't run ") [text "sh", text "-c", command]))
  return endingCode (← act (awaitEnding child))

/-- Writes values as a format says. What had been written before a mistake is left by `emitted`. -/
def format (tool : String) (emitted : Octets → Run Unit) (values : List Value) : Run Octets := do
  let template ← textOf (values.headD .unset)
  let conversion ← conversion
  let (t, failure) :=
    formatted (fun v => v.toText conversion) (template.length + 1) 0 [] template (values.drop 1)
  match failure with
  | none => return t
  | some e =>
    emitted t
    let call := text (tool ++ "(\"") ++ template ++ text "\")"
    match e with
    | .missing => fail (← mistake (text "not enough arguments passed to " ++ call))
    | .unknown n =>
      fail (← mistake (text ("improper conversion(number " ++ toString n ++ ") in ") ++ call))

/-- What is left of a read: a record goes where it is asked for. -/
def received (counts : Bool) (target : Option Place) : Option Octets → Run Value
  | none => return .ofNat 0
  | some t => do
    if counts then
      count "NR"
      count "FNR"
    match target with
    | none => setRecord t
    | some place => putAt place (.given t)
    return .ofNat 1

/-- Reads the next record of a file or of what a command writes. -/
def receive (start : Starter) (origin : Origin) (name : Octets) : Run (Option (Option Octets)) := do
  let fits := fun f : Origin × Octets × Feed => f.1 == origin && f.2.1 == name
  let known := ((← get).feeds.find? fits).map (·.2.2)
  let feed ← match known, origin with
    | some f, _ => pure (some f)
    | none, .command => do pure (some (← openCommand start name))
    | none, _ => do pure (← openFile name).toOption
  match feed with
  | none => return none
  | some f =>
    let (found, f) ← nextFrom f
    modify fun m => { m with feeds := (origin, name, f) :: m.feeds.filter fun f => !fits f }
    return some found

mutual

/-- The value of an expression. The first argument bounds how deep the program goes. -/
def eval (p : Program) (start : Starter) : Nat → Expr → Run Value
  | 0, _ => throw .ended
  | fuel + 1, e => do
    match e with
    | .number n => return .number n
    | .text t => return .text t
    | .regex r => return ofTruth (r.find? look (← recordText).toArray 0).isSome
    | .var v => variableValue v
    | .element v keys =>
      let n ← tableOf v
      let key ← keyAt p start fuel keys
      withTable n fun t => t.take key .unset
    | .field e => field (← fieldPlace (← eval p start fuel e))
    | .assign target value =>
      let place ← placeAt p start fuel target
      if let .element n key := place then let _ ← withTable n fun t => t.take key .unset
      let v ← eval p start fuel value
      putAt place v
      return v
    | .update o target value =>
      let place ← placeAt p start fuel target
      let v ← eval p start fuel value
      let old ← valueAt place
      let new := Value.number (o.result old.toNumber v.toNumber)
      putAt place new
      return new
    | .step o before target =>
      let place ← placeAt p start fuel target
      let old := (← valueAt place).toNumber
      let new := o.result old (.ofNat 1)
      putAt place (.number new)
      return .number (if before then new else old)
    | .choice c yes no =>
      if (← eval p start fuel c).isTrue then eval p start fuel yes else eval p start fuel no
    | .either a b =>
      if (← eval p start fuel a).isTrue then return ofTruth true
      else return ofTruth (← eval p start fuel b).isTrue
    | .both a b =>
      if (← eval p start fuel a).isTrue then return ofTruth (← eval p start fuel b).isTrue
      else return ofTruth false
    | .isIn keys v =>
      let key ← keyAt p start fuel keys
      let n ← tableOf v
      return ofTruth (← withTable n fun t => t.has key)
    | .matched expected value pattern =>
      let t ← textOf (← eval p start fuel value)
      let r ← patternAt p start fuel pattern
      return ofTruth ((r.find? look t.toArray 0).isSome == expected)
    | .compare c a b =>
      let a ← eval p start fuel a
      let b ← eval p start fuel b
      return ofTruth (c.holds (a.compare (← conversion) b))
    | .join a b =>
      let s ← textOf (← eval p start fuel a)
      let t ← textOf (← eval p start fuel b)
      return .text (s ++ t)
    | .calculate o a b =>
      let a ← eval p start fuel a
      let b ← eval p start fuel b
      return .number (o.result a.toNumber b.toNumber)
    | .notTrue a => return ofTruth (!(← eval p start fuel a).isTrue)
    | .minus a => return .number (← eval p start fuel a).toNumber.neg
    | .plus a => return .number (← eval p start fuel a).toNumber
    | .call f arguments => call p start fuel f arguments
    | .builtin b arguments => builtin p start fuel b arguments
    | .getline origin source target =>
      let name ← match source with
        | some e => do textOf (← eval p start fuel e)
        | none => pure []
      let place ← match target with
        | some e => do pure (some (← placeAt p start fuel e))
        | none => pure none
      match origin with
      | .input => received true place (← nextRecord p Act.endless)
      | _ =>
        match ← receive start origin name with
        | some found => received false place found
        | none => return .ofInt (-1)
    | .group items =>
      match items with
      | [e] => eval p start fuel e
      | _ => return .unset

/-- The values of some expressions, in turn. -/
def evalAll (p : Program) (start : Starter) : Nat → List Expr → Run (List Value)
  | 0, _ => throw .ended
  | _ + 1, [] => return []
  | fuel + 1, e :: rest => do
    let v ← eval p start fuel e
    return v :: (← evalAll p start fuel rest)

/-- The key that some expressions make. -/
def keyAt (p : Program) (start : Starter) : Nat → List Expr → Run Key
  | 0, _ => throw .ended
  | fuel + 1, keys => do keyOf (← evalAll p start fuel keys)

/-- The place that an expression stands for. -/
def placeAt (p : Program) (start : Starter) : Nat → Expr → Run Place
  | 0, _ => throw .ended
  | fuel + 1, e => do
    match e with
    | .var v => return .variable v
    | .element v keys =>
      let n ← tableOf v
      return .element n (← keyAt p start fuel keys)
    | .field e => return .field (← fieldPlace (← eval p start fuel e))
    | _ => return .field 0

/-- The pattern that an expression stands for. -/
def patternAt (p : Program) (start : Starter) : Nat → Expr → Run Text.Regex
  | 0, _ => throw .ended
  | fuel + 1, e => do
    match bare e with
    | .regex r => return r
    | e => pattern (← textOf (← eval p start fuel e))

/-- What a function of the program leaves. -/
def call (p : Program) (start : Starter) : Nat → Nat → List Expr → Run Value
  | 0, _, _ => throw .ended
  | fuel + 1, f, arguments => do
    tick
    let given ← slotsOf p start fuel arguments
    let function := p.functions.getD f ⟨"", 0, .nothing⟩
    let m ← get
    let slots := given ++ List.replicate (function.parameters - given.length) (.value .unset)
    set { m with frame := slots.toArray, result := .unset }
    let _ ← exec p start fuel function.body
    let size := m.tables.size
    let frame := m.frame
    modifyGet fun m =>
      (m.result, { m with frame := frame, tables := m.tables.shrink size, result := .unset })

/-- What the parameters of a function hold. A variable without a value may be meant as a table. -/
def slotsOf (p : Program) (start : Starter) : Nat → List Expr → Run (List Slot)
  | 0, _ => throw .ended
  | _ + 1, [] => return []
  | fuel + 1, e :: rest => do
    let slot ← match e with
      | .var v => do
        match ← variableValue v with
        | .unset => do pure (Slot.table (← tableOf v))
        | value => pure (Slot.value value)
      | e => do pure (Slot.value (← eval p start fuel e))
    return slot :: (← slotsOf p start fuel rest)

/-- What a function that every program has leaves. -/
def builtin (p : Program) (start : Starter) : Nat → Builtin → List Expr → Run Value
  | 0, _, _ => throw .ended
  | fuel + 1, b, arguments => do
    let value := fun e : Expr => eval p start fuel e
    let number := fun e : Expr => do return (← value e).toNumber
    let t := fun e : Expr => do textOf (← value e)
    match b, arguments with
    | .length, [] => return .ofNat (← recordText).length
    | .length, [.var v] =>
      match ← variableValue v with
      | .unset => do
        let n ← tableOf v
        return .ofNat (← withTable n fun t => (t.size, t))
      | v => return .ofNat (← textOf v).length
    | .length, e :: _ => return .ofNat (← t e).length
    | .substring, e :: first :: more =>
      let text ← t e
      let first ← number first
      match more with
      | n :: _ => return .text (part text first (some (← number n)))
      | [] => return .text (part text first none)
    | .index, [e, sought] =>
      let text ← t e
      match Text.cut? (← t sought) text with
      | some (before, _) => return .ofNat (before.length + 1)
      | none => return .ofNat 0
    | .lookFor, [e, pattern] =>
      let text ← t e
      lookFor (← patternAt p start fuel pattern) text
    | .split, e :: .var v :: more =>
      let text ← t e
      let separator ← match more.map bare with
        | [] => do separatorOf (← textOf (← known "FS"))
        | .regex r :: _ => pure (Separator.regex r)
        | e :: _ => do separatorOf (← t e)
      let parts := ((separator.fields text).map Value.given).toArray
      let n ← tableOf v
      withTable n fun _ => ((), if parts.isEmpty then .empty else .ofRow parts)
      return .ofNat parts.size
    | .substitute all, pattern :: new :: target =>
      let r ← patternAt p start fuel pattern
      let new ← t new
      let place ← match target with
        | e :: _ => placeAt p start fuel e
        | [] => pure (.field 0)
      let text ← textOf (← valueAt place)
      let (text, count) :=
        if all then replaceAll r new text.toArray (text.length + 2) 0 none else replaceFirst r new text
      if 0 < count then putAt place (.text text)
      return .ofNat count
    | .upper, [e] => return .text ((← t e).map Char.toUpper)
    | .lower, [e] => return .text ((← t e).map Char.toLower)
    | .format, all => return .text (← format "sprintf" (fun _ => pure ()) (← evalAll p start fuel all))
    | .close, [e] => return .ofInt (← close (← t e))
    | .system, [e] => return .ofNat (← system start (← t e))
    | .flush, [] =>
      releaseAll
      return .ofNat 0
    | .flush, e :: _ =>
      let name ← t e
      if name != [] && !((← get).sinks.any fun s => s.name == name) && !isStandard name then
        return .ofInt (-1)
      else
        releaseAll
        return .ofNat 0
    | .atan2, [y, x] =>
      let y ← number y
      return .number (Numeric.Elementary.atan2 y (← number x))
    | .cos, [e] => return .number (Numeric.Elementary.cos (← number e))
    | .sin, [e] => return .number (Numeric.Elementary.sin (← number e))
    | .exp, [e] => return .number (Numeric.Elementary.exp (← number e))
    | .log, [e] => return .number (Numeric.Elementary.log (← number e))
    | .sqrt, [e] => return .number (← number e).sqrt
    | .int, [e] => return .number (← number e).trunc
    | .random, _ =>
      modifyGet fun m =>
        let (n, g) := m.generator.draw
        (.number (.ofRatio n Numeric.Generator.largest), { m with generator := g })
    | .seed, all =>
      let seed ← match all with
        | e :: _ => value e
        | [] => do pure (.ofInt (← seconds))
      let n := (seed.toNumber.truncated?.getD 0) % 4294967296
      modifyGet fun m => (m.seed, { m with seed := seed, generator := .ofSeed n.toNat })
    | .time, _ => return .ofInt (← seconds)
    | .makeTime, [e] => return .ofInt ((momentOf (← t e)).getD (-1))
    | .formatTime, all =>
      let template ← match all with
        | e :: _ => t e
        | [] => pure ['%', 'c']
      let time ← match all with
        | _ :: e :: _ => do pure ((← number e).truncated?.getD 0)
        | _ => seconds
      return .text ((Moment.ofMillis (time * 1000)).write template)
    | _, _ => return .unset

/-- Does what a statement says. -/
def exec (p : Program) (start : Starter) : Nat → Statement → Run Onward
  | 0, _ => throw .ended
  | fuel + 1, s => do
    match s with
    | .nothing => return .done
    | .value e =>
      let _ ← eval p start fuel e
      return .done
    | .print items to? =>
      let values ← evalAll p start fuel items
      let mut parts := #[]
      for v in values do
        parts := parts.push (← shownText v)
      let line ← if items.isEmpty then recordText
        else do pure (List.intercalate (← textOf (← known "OFS")) parts.toList)
      let goal ← goalOf p start fuel to?
      emit start goal (line ++ (← textOf (← known "ORS")))
      return .done
    | .printf items to? =>
      let values ← evalAll p start fuel items
      let goal ← goalOf p start fuel to?
      let t ← format "printf" (emit start goal) values
      emit start goal t
      return .done
    | .delete v keys =>
      let n ← tableOf v
      let key ← keyAt p start fuel keys
      withTable n fun t => ((), t.erase key)
      return .done
    | .deleteAll v =>
      let n ← tableOf v
      withTable n fun _ => ((), .empty)
      return .done
    | .choice c yes no =>
      if (← eval p start fuel c).isTrue then exec p start fuel yes else exec p start fuel no
    | .loop c step body => loop p start fuel c step body
    | .loopAfter body c =>
      match ← exec p start fuel body with
      | .broken => return .done
      | .left => return .left
      | _ => loop p start fuel (some c) .nothing body
    | .each target v body =>
      let n ← tableOf v
      let keys ← withTable n Table.keys
      each p start fuel target body keys
    | .block all => execAll p start fuel all
    | .next => throw .next
    | .nextFile => throw .nextFile
    | .exit e =>
      match e with
      | some e =>
        let v ← eval p start fuel e
        modify fun m => { m with status := ((v.toNumber.truncated?.getD 0) % 256).toNat }
      | none => pure ()
      throw .exit
    | .leave e =>
      match e with
      | some e =>
        let v ← eval p start fuel e
        modify fun m => { m with result := v }
      | none => pure ()
      return .left
    | .stop => return .broken
    | .proceed => return .again

/-- Does what some statements say, in turn. -/
def execAll (p : Program) (start : Starter) : Nat → List Statement → Run Onward
  | 0, _ => throw .ended
  | _ + 1, [] => return .done
  | fuel + 1, s :: rest => do
    match ← exec p start fuel s with
    | .done => execAll p start fuel rest
    | onward => return onward

/-- Does what a statement says again and again. -/
def loop (p : Program) (start : Starter) : Nat → Option Expr → Statement → Statement → Run Onward
  | 0, _, _, _ => throw .ended
  | fuel + 1, c, step, body => do
    tick
    let goesOn ← match c with
      | some c => do pure (← eval p start fuel c).isTrue
      | none => pure true
    if !goesOn then return .done
    match ← exec p start fuel body with
    | .broken => return .done
    | .left => return .left
    | _ =>
      let _ ← exec p start fuel step
      loop p start fuel c step body

/-- Does what a statement says for each key. -/
def each (p : Program) (start : Starter) : Nat → Var → Statement → List Octets → Run Onward
  | 0, _, _, _ => throw .ended
  | _ + 1, _, _, [] => return .done
  | fuel + 1, target, body, key :: rest => do
    tick
    setVariable target (.text key)
    match ← exec p start fuel body with
    | .broken => return .done
    | .left => return .left
    | _ => each p start fuel target body rest

/-- Where output goes. -/
def goalOf (p : Program) (start : Starter) : Nat → Redirection → Run (Option (Target × Octets))
  | 0, _ => throw .ended
  | _ + 1, none => return none
  | fuel + 1, some (target, e) => do return some (target, ← textOf (← eval p start fuel e))

end

/-- How deep a program goes at most, and how long its loops go on. -/
def depth : Nat := 1000000000

/-- Whether a rule selects the present record. -/
def selects (p : Program) (start : Starter) (s : Selector) : Run Bool := do
  match s with
  | .always => return true
  | .condition e => return (← eval p start depth e).isTrue
  | .range place first last =>
    let inside := (← get).ranges.getD place false
    let starts ← if inside then pure true else do pure (← eval p start depth first).isTrue
    if !starts then return false
    let ends := (← eval p start depth last).isTrue
    modify fun m => { m with ranges := m.ranges.set! place (!ends) }
    return true

/-- Does what the rules say that select the present record. -/
def applyRules (p : Program) (start : Starter) : List Rule → Run Unit
  | [] => pure ()
  | r :: rest => do
    if ← selects p start r.selector then let _ ← exec p start depth r.action
    applyRules p start rest

/-- Does what the rules say, record by record. The first argument bounds the records. -/
def overRecords (p : Program) (start : Starter) : Nat → Run Unit
  | 0 => throw .ended
  | bound + 1 => do
    tick
    match ← nextRecord p Act.endless with
    | none => pure ()
    | some t =>
      setRecord t
      count "NR"
      count "FNR"
      try
        applyRules p start p.rules
      catch
        | .next => pure ()
        | .nextFile => modify fun m => { m with input := none }
        | e => throw e
      overRecords p start bound

/-- Does something, and whether it was left by an exit. -/
def untilExit (r : Run Unit) : Run Bool := do
  try
    r
    return false
  catch
    | .exit => return true
    | e => throw e

def execAlways (p : Program) (start : Starter) (all : List Statement) : Run Unit := do
  for s in all do let _ ← exec p start depth s

/-- Runs a program from its start to its end. An exit leads to what is done behind the last record,
and from there out of the program. -/
def program (p : Program) (start : Starter) : Run Unit := do
  let _ ← untilExit do
    execAlways p start p.first
    if !(p.rules.isEmpty && p.last.isEmpty) then overRecords p start depth
  let _ ← untilExit (execAlways p start p.last)

end Run

end BitcodeReplay.Tool.Awk
