import BitcodeReplay.Text.RegexSyntax
import BitcodeReplay.Tool.Basic

/-!
The tool that works out expressions whose parts are words: on whole numbers of any size, on texts, and
on truth, for which zero and the empty text stand for what is false.
-/

namespace BitcodeReplay.Tool

open Shell

namespace Expr

inductive Value where
  | number (n : Int)
  | text (t : Octets)
  deriving DecidableEq, Repr

namespace Value

def toText : Value → Octets
  | .number n => Octets.ofText (toString n)
  | .text t => t

/-- The whole number that a text writes, with a sign if it is negative. -/
def integer? (t : Octets) : Option Int :=
  let digits := if t.head? = some '-' then t.drop 1 else t
  if digits = [] || !digits.all Text.isDigit then none
  else ((String.ofList digits).toNat?).map fun n => if t.head? = some '-' then -(n : Int) else n

def toInteger? : Value → Option Int
  | .number n => some n
  | .text t => integer? t

/-- Whether a value stands for what is false. -/
def isNull : Value → Bool
  | .number n => n == 0
  | .text t => t = [] || integer? t = some 0

end Value

inductive Failure where
  | missingArgument (after : Octets)
  | unexpectedArgument (word : Octets)
  | openAfter (word : Octets)
  | openBefore (word : Octets)
  | closing
  | noInteger
  | byZero
  | badPattern (e : Text.RegexFailure)
  deriving DecidableEq, Repr

def Failure.message : Failure → Octets
  | .missingArgument word => text "syntax error: missing argument after " ++ Quote.always word
  | .unexpectedArgument word => text "syntax error: unexpected argument " ++ Quote.always word
  | .openAfter word => text "syntax error: expecting ')' after " ++ Quote.always word
  | .openBefore word => text "syntax error: expecting ')' instead of " ++ Quote.always word
  | .closing => text "syntax error: unexpected ')'"
  | .noInteger => text "non-integer argument"
  | .byZero => text "division by zero"
  | .badPattern e => text e.message

/-- The word that has been taken last, and those that are left. -/
structure Cursor where
  last : Octets
  rest : List Octets

abbrev Scan := StateT Cursor (Except Failure)

/-- Takes a word if it is one of some. -/
def accept (words : List String) : Scan (Option String) := do
  match (← get).rest with
  | w :: rest =>
    match words.find? fun x => x.toList == w with
    | some x =>
      set (⟨w, rest⟩ : Cursor)
      return some x
    | none => return none
  | [] => return none

/-- Takes the next word. -/
def take : Scan Octets := do
  match (← get).rest with
  | w :: rest =>
    set (⟨w, rest⟩ : Cursor)
    return w
  | [] => throw (.missingArgument (← get).last)

/-- How a text starts with what a pattern matches: the part that it marks, or else the length. -/
def matchStart (t pattern : Octets) : Except Failure Value :=
  match Text.Regex.read ⟨false, false⟩ pattern with
  | .error e => .error (.badPattern e)
  | .ok r =>
    let array := t.toArray
    match r.ends ⟨false, false⟩ array 0 [], r.groupCount with
    | (stop, _) :: _, 0 => .ok (.number stop)
    | (stop, groups) :: _, _ => .ok (.text (Text.Regex.Found.part ⟨0, stop, groups⟩ array 1))
    | [], 0 => .ok (.number 0)
    | [], _ => .ok (.text [])

def truth (b : Bool) : Value := .number (if b then 1 else 0)

/-- Compares two values: as numbers if both are, and otherwise as texts. -/
def compare (sign : String) (a b : Value) : Value :=
  let order := match a.toInteger?, b.toInteger? with
    | some m, some n => if m < n then Ordering.lt else if m = n then .eq else .gt
    | _, _ =>
      if a.toText = b.toText then .eq else if Octets.isLe a.toText b.toText then .lt else .gt
  truth (match sign with
    | "<" => order == .lt
    | "<=" => order != .gt
    | "=" | "==" => order == .eq
    | "!=" => order != .eq
    | ">=" => order != .lt
    | _ => order == .gt)

def calculate (sign : String) (a b : Value) : Except Failure Value :=
  match a.toInteger?, b.toInteger? with
  | some m, some n =>
    match sign with
    | "+" => .ok (.number (m + n))
    | "-" => .ok (.number (m - n))
    | "*" => .ok (.number (m * n))
    | _ =>
      if n = 0 then .error .byZero
      else .ok (.number (if sign = "/" then Int.tdiv m n else Int.tmod m n))
  | _, _ => .error .noInteger

/-- The signs of a level, the loosest first. -/
def signs : Nat → List String
  | 0 => ["|"]
  | 1 => ["&"]
  | 2 => ["<", "<=", "=", "==", "!=", ">=", ">"]
  | 3 => ["+", "-"]
  | 4 => ["*", "/", "%"]
  | _ => [":"]

/-- What a sign makes of two values. -/
def apply (sign : String) (a b : Value) : Except Failure Value :=
  match sign with
  | "|" => .ok (if !a.isNull then a else if !b.isNull then b else .number 0)
  | "&" => .ok (if a.isNull || b.isNull then .number 0 else a)
  | ":" => matchStart a.toText b.toText
  | "+" | "-" | "*" | "/" | "%" => calculate sign a b
  | _ => .ok (compare sign a b)

/-- Whether the right side of a sign counts. -/
def needsRight (sign : String) (a : Value) : Bool :=
  match sign with
  | "|" => a.isNull
  | "&" => !a.isNull
  | _ => true

/-- The part of a text from a place on, counted from one, with some length. -/
def part (t : Octets) (place length : Option Int) : Octets :=
  match place, length with
  | some p, some n => if 0 < p && 0 < n then (t.drop (p.toNat - 1)).take n.toNat else []
  | _, _ => []

mutual

/-- An expression whose signs are at least as tight as a level. What does not count is read but not
worked out. -/
def level : Nat → Nat → Bool → Scan Value
  | 0, _, _ => do throw (.missingArgument (← get).last)
  | fuel + 1, n, counts => do
    if n > 5 then function fuel counts
    else
      let first ← level fuel (n + 1) counts
      chain fuel n counts first

/-- What follows a value on its level. -/
def chain : Nat → Nat → Bool → Value → Scan Value
  | 0, _, _, a => return a
  | fuel + 1, n, counts, a => do
    match ← accept (signs n) with
    | none => return a
    | some sign =>
      let b ← level fuel (n + 1) (counts && needsRight sign a)
      if counts then
        match apply sign a b with
        | .ok v => chain fuel n counts v
        | .error e => throw e
      else chain fuel n counts a

/-- A function with its arguments, or a word. -/
def function : Nat → Bool → Scan Value
  | 0, _ => do throw (.missingArgument (← get).last)
  | fuel + 1, counts => do
    match ← accept ["+", "length", "match", "index", "substr", "(", ")"] with
    | some "+" => return .text (← take)
    | some "length" => return .number (← function fuel counts).toText.length
    | some "match" =>
      let a ← function fuel counts
      let b ← function fuel counts
      if counts then
        match matchStart a.toText b.toText with
        | .ok v => return v
        | .error e => throw e
      else return a
    | some "index" =>
      let a ← function fuel counts
      let b ← function fuel counts
      return .number ((a.toText.findIdx? b.toText.contains).elim 0 (· + 1) : Nat)
    | some "substr" =>
      let a ← function fuel counts
      let place ← function fuel counts
      let length ← function fuel counts
      return .text (part a.toText place.toInteger? length.toInteger?)
    | some "(" =>
      let v ← level fuel 0 counts
      match (← get).rest with
      | [] => throw (.openAfter (← get).last)
      | w :: _ =>
        if (← accept [")"]).isNone then throw (.openBefore w)
        return v
    | some _ => throw .closing
    | none => return .text (← take)

end

/-- The value of an expression in words. -/
def evaluate (words : List Octets) : Except Failure Value :=
  let all : Scan Value := do
    let v ← level (20 * words.length + 20) 0 true
    match (← get).rest with
    | [] => return v
    | w :: _ => throw (.unexpectedArgument w)
  (all.run ⟨[], words⟩).map (·.1)

end Expr

def expr (words : List Octets) : Act Unit := do
  let words := if words.head? = some ['-', '-'] then words.drop 1 else words
  if words = [] then misused 2 (text "missing operand")
  else
    match Expr.evaluate words with
    | .error e => failWith 2 e.message
    | .ok v =>
      Act.putLine v.toText
      Act.setStatus (if v.isNull then 1 else 0)

end BitcodeReplay.Tool
