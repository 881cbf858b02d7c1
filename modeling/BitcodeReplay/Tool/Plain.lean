import BitcodeReplay.Numeric.Reading
import BitcodeReplay.Shell.Condition
import BitcodeReplay.Shell.Format
import BitcodeReplay.Tool.Basic

/-!
The tools that say something, decide something, or wait.
-/

namespace BitcodeReplay.Tool

open Shell

def echo (words : List Octets) : Act Unit := Act.put (Format.plainEcho words)

/-- What a complaint of `printf` says. -/
def formatText : Format.Complaint → Octets
  | .notANumber word => Quote.always word ++ text ": expected a numeric value"
  | .halfANumber word => Quote.always word ++ text ": value not completely converted"
  | .outOfRange word => Quote.always word ++ text ": Numerical result out of range"
  | .surplus word => text "warning: ignoring excess arguments, starting with " ++ Quote.always word
  | .invalidDirective word => word ++ text ": invalid conversion specification"
  | .missingLetter => text "%: invalid conversion specification"

/-- What has been written before a complaint comes before it. -/
def printf (words : List Octets) : Act Unit := do
  let words := if words.head? = some ['-', '-'] then words.drop 1 else words
  match words with
  | [] => missingOperand
  | format :: arguments =>
    let (output, complaints) := Format.printf .program format arguments
    let mut written := 0
    for (place, c) in complaints do
      Act.put ((output.take place).drop written)
      written := place
      match c with
      | .surplus _ => say (formatText c)
      | _ => fail (formatText c)
    Act.put (output.drop written)

/-- Ends with a status, whatever the words are. -/
def answer (status : Nat) (_ : List Octets) : Act Unit := Act.setStatus status

/-- Waits for as long as the words say. -/
def sleep (words : List Octets) : Act Unit :=
  withOptions (.of "" []) words fun _ operands => do
    if operands = [] then missingOperand
    else
      let wrong := operands.filter fun word => (Delay.ofWord? word).isNone
      for word in wrong do say (text "invalid time interval " ++ Quote.always word)
      if wrong ≠ [] then hint 1
      else
        Act.awaitTime ((← get).clock + Delay.ofWords operands)

/-- Why a condition cannot be decided. -/
inductive ConditionFailure where
  | number (word : Octets)
  | binaryExpected (word : Octets)
  | unaryExpected (word : Octets)
  | missingAfter (word : Octets)
  | extra (word : Octets)
  | parenthesis (found : Option Octets)
  deriving DecidableEq, Repr

def ConditionFailure.message : ConditionFailure → Octets
  | .number word => text "invalid integer " ++ Quote.always word
  | .binaryExpected word => Quote.always word ++ text ": binary operator expected"
  | .unaryExpected word => Quote.always word ++ text ": unary operator expected"
  | .missingAfter word => text "missing argument after " ++ Quote.always word
  | .extra word => text "extra argument " ++ Quote.always word
  | .parenthesis none => text "')' expected"
  | .parenthesis (some word) => text "')' expected, found " ++ word

namespace ConditionWords

abbrev Answer := Except ConditionFailure (Bool × List Octets)

def isBinary (word : Octets) : Bool :=
  Condition.binaryOperators.contains word.toText && word ≠ ['<'] && word ≠ ['>'] || word = text "=="

def ofFailure (word : Octets) : Condition.Failure → ConditionFailure
  | .notANumber w => .number w
  | _ => .binaryExpected word

def decideBinary (s : Session) (a operator b : Octets) : Except ConditionFailure Bool :=
  let name := if operator = text "==" then "=" else operator.toText
  (Condition.binary s name a b).mapError (ofFailure operator)

def isUnary (operator : Octets) : Bool :=
  Condition.unaryOperators.contains operator.toText || operator = text "-N"

def decideUnary (s : Session) (operator word : Octets) : Except ConditionFailure Bool :=
  if isUnary operator then (Condition.unary s operator.toText word).mapError (ofFailure operator)
  else .error (.unaryExpected operator)

/-- A word of a dash and one letter. -/
def isOption (word : Octets) : Bool := word.head? = some '-' && word.length = 2

def isConnective (word : Octets) : Bool := word = text "-a" || word = text "-o"

mutual

/-- Decides as many words as given, which are in front of others. The first argument bounds the steps.
The last word of all is named when one is missing. -/
def few (s : Session) (last : Octets) : Nat → Nat → List Octets → Answer
  | 0, _, words => .ok (false, words)
  | bound + 1, count, words =>
    let rest := words.drop count
    match count, words with
    | 1, a :: _ => .ok (a ≠ [], rest)
    | 2, a :: b :: _ =>
      if a = ['!'] then .ok (b = [], rest)
      else if isOption a then do return (← decideUnary s a b, rest)
      else .error (.missingAfter last)
    | 3, a :: b :: c :: _ =>
      if isBinary b then do return (← decideBinary s a b c, rest)
      else if a = ['!'] then do
        let (answer, rest) ← few s last bound 2 (b :: c :: rest)
        return (!answer, rest)
      else if a = ['('] && c = [')'] then .ok (b ≠ [], rest)
      else if isConnective b then choice s last bound words
      else .error (.binaryExpected b)
    | 4, a :: b :: c :: d :: _ =>
      if a = ['!'] then do
        let (answer, rest) ← few s last bound 3 (b :: c :: d :: rest)
        return (!answer, rest)
      else if a = ['('] && d = [')'] then do
        let (answer, _) ← few s last bound 2 [b, c]
        return (answer, rest)
      else choice s last bound words
    | _, _ => choice s last bound words

def choice (s : Session) (last : Octets) : Nat → List Octets → Answer
  | 0, words => .ok (false, words)
  | bound + 1, words => do
    let (answer, rest) ← conjunction s last bound words
    if rest.head? = some (text "-o") then
      let (other, rest) ← choice s last bound (rest.drop 1)
      return (answer || other, rest)
    else return (answer, rest)

def conjunction (s : Session) (last : Octets) : Nat → List Octets → Answer
  | 0, words => .ok (false, words)
  | bound + 1, words => do
    let (answer, rest) ← primary s last bound words
    if rest.head? = some (text "-a") then
      let (other, rest) ← conjunction s last bound (rest.drop 1)
      return (answer && other, rest)
    else return (answer, rest)

def primary (s : Session) (last : Octets) : Nat → List Octets → Answer
  | 0, words => .ok (false, words)
  | bound + 1, words => do
    match words with
    | [] => throw (.missingAfter last)
    | ['!'] :: rest =>
      let (answer, rest) ← primary s last bound rest
      return (!answer, rest)
    | ['('] :: rest =>
      let inner := (rest.takeWhile (· ≠ [')'])).length
      let count := if inner < 4 then inner else rest.length
      let (answer, rest) ← few s last bound (max count 1) rest
      match rest with
      | [')'] :: rest => return (answer, rest)
      | [] => throw (.parenthesis none)
      | word :: _ => throw (.parenthesis (some word))
    | a :: b :: c :: rest =>
      if isBinary b then return (← decideBinary s a b c, rest)
      else if isOption a then return (← decideUnary s a b, c :: rest)
      else return (a ≠ [], b :: c :: rest)
    | [a, b] =>
      if isOption a then return (← decideUnary s a b, [])
      else return (a ≠ [], [b])
    | [a] => if isOption a && isUnary a then throw (.missingAfter a) else return (a ≠ [], [])

end

end ConditionWords

/-- Decides a condition. -/
def decideWords (words : List Octets) : Act Unit := do
  if words = [] then Act.setStatus 1
  else
    let last := words.getLast?.getD []
    match ConditionWords.few (← get) last (4 * words.length + 8) words.length words with
    | .error e => failWith 2 e.message
    | .ok (answer, []) => Act.setStatus (if answer then 0 else 1)
    | .ok (_, word :: _) => failWith 2 (ConditionFailure.extra word).message

def bracket (words : List Octets) : Act Unit := do
  if words.getLast? = some [']'] then decideWords words.dropLast
  else failWith 2 (text "missing ']'")

end BitcodeReplay.Tool
