import BitcodeReplay.Text.Bracket

/-!
Arithmetic of the shell on whole numbers of 64 bits, with the operators and the precedence of the
command language. A comparison gives one or zero, and an assignment gives what it assigns. What a
condition leaves out is read but not carried out.
-/

namespace BitcodeReplay.Shell.Arithmetic

/-- Why an expression has no value. -/
inductive Failure where
  | expecting (what : String)
  | divisionByZero
  | notANumber (text : List Char)
  deriving DecidableEq, Repr

inductive Token where
  | number (n : Int)
  | name (text : List Char)
  | operator (text : String)
  | stray (c : Char)
  deriving DecidableEq, Repr

/-- The operators of more than one character before those of one, so that the longest is read. -/
def operators : List String :=
  ["<<=", ">>=", "<<", ">>", "<=", ">=", "==", "!=", "&&", "||", "+=", "-=", "*=", "/=", "%=", "&=",
    "|=", "^=", "+", "-", "*", "/", "%", "<", ">", "&", "|", "^", "!", "~", "(", ")", "?", ":", "="]

def isNameStart (c : Char) : Bool := Text.isLetter c || c == '_'

def isNameChar (c : Char) : Bool := isNameStart c || Text.isDigit c

def digitValue (c : Char) : Nat :=
  if Text.isDigit c then c.toNat - '0'.toNat else c.toLower.toNat - 'a'.toNat + 10

def isDigitIn (base : Nat) (c : Char) : Bool := Text.inClass "xdigit" c && digitValue c < base

/-- The number that some digits write in a base. -/
def digitsValue (base : Nat) (digits : List Char) : Nat :=
  digits.foldl (fun n c => n * base + digitValue c) 0

def maxNumber : Int := Nat.pow 2 63 - 1

def minNumber : Int := -Nat.pow 2 63

/-- A number without a sign at the start of a text: decimal, or octal after a zero, or hexadecimal
after `0x`. -/
def literal? (text : List Char) : Option (Nat × List Char) :=
  let read := fun base (digits : List Char) =>
    (digitsValue base (digits.takeWhile (isDigitIn base)), digits.dropWhile (isDigitIn base))
  match text with
  | '0' :: x :: c :: rest =>
    if (x = 'x' || x = 'X') && isDigitIn 16 c then some (read 16 (c :: rest))
    else some (read 8 text)
  | '0' :: _ => some (read 8 text)
  | c :: _ => if Text.isDigit c then some (read 10 text) else none
  | [] => none

/-- A decimal number without a sign at the start of a text. -/
def decimal? (text : List Char) : Option (Nat × List Char) :=
  let digits := text.takeWhile Text.isDigit
  if digits = [] then none else some (digitsValue 10 digits, text.drop digits.length)

def isSpace (c : Char) : Bool := Text.inClass "space" c

/-- A number with its sign at the start of a text, behind blanks, and what follows it. -/
def signed? (unsigned : List Char → Option (Nat × List Char)) (text : List Char) :
    Option (Int × List Char) :=
  match text.dropWhile isSpace with
  | '-' :: rest => (unsigned rest).map fun (n, rest) => (-n, rest)
  | '+' :: rest => (unsigned rest).map fun (n, rest) => (n, rest)
  | rest => (unsigned rest).map fun (n, rest) => (n, rest)

/-- Whether a number can be kept in 64 bits. -/
def fits (n : Int) : Bool := minNumber ≤ n && n ≤ maxNumber

/-- The number of 64 bits that comes nearest. -/
def saturate (n : Int) : Int := max minNumber (min maxNumber n)

/-- The number that a whole text writes in decimal digits, with blanks around it. -/
def decimalValue? (text : List Char) : Option Int :=
  match signed? decimal? text with
  | some (n, rest) => if fits n && rest.all isSpace then some n else none
  | none => none

/-- The number that a text stands for as the value of a variable. A blank one stands for zero. -/
def value? (text : List Char) : Option Int :=
  match signed? literal? text with
  | some (n, rest) => if fits n && rest.all isSpace then some n else none
  | none => if text.all isSpace then some 0 else none

/-- Reads tokens. The first argument bounds their number. -/
def tokens : Nat → List Char → List Token
  | 0, _ => []
  | _ + 1, [] => []
  | bound + 1, c :: rest =>
    if c = ' ' || c = '\t' || c = '\n' then tokens bound rest
    else if isNameStart c then
      .name ((c :: rest).takeWhile isNameChar) :: tokens bound ((c :: rest).dropWhile isNameChar)
    else
      match literal? (c :: rest) with
      | some (n, rest) => .number (saturate n) :: tokens bound rest
      | none =>
        match operators.find? fun o => o.toList.isPrefixOf (c :: rest) with
        | some o => .operator o :: tokens bound ((c :: rest).drop o.length)
        | none => .stray c :: tokens bound rest

/-- The operator that an assignment applies to the old value; a plain one applies none. -/
def assignment? : String → Option (Option String)
  | "=" => some none
  | "+=" => some (some "+")
  | "-=" => some (some "-")
  | "*=" => some (some "*")
  | "/=" => some (some "/")
  | "%=" => some (some "%")
  | "&=" => some (some "&")
  | "|=" => some (some "|")
  | "^=" => some (some "^")
  | "<<=" => some (some "<<")
  | ">>=" => some (some ">>")
  | _ => none

/-- How tightly an operator between two numbers binds. -/
def level? : String → Option Nat
  | "|" => some 1
  | "^" => some 2
  | "&" => some 3
  | "==" | "!=" => some 4
  | "<" | "<=" | ">" | ">=" => some 5
  | "<<" | ">>" => some 6
  | "+" | "-" => some 7
  | "*" | "/" | "%" => some 8
  | _ => none

def truth (p : Prop) [Decidable p] : Int := if p then 1 else 0

/-- How many numbers a word of 64 bits tells apart. -/
def wordCount : Nat := Nat.pow 2 64

/-- The word of 64 bits that a number leaves. -/
def wrap (n : Int) : Int := n.bmod wordCount

/-- The factor of a shift by a number of places. -/
def shiftFactor (places : Int) : Int := Nat.pow 2 (places % 64).toNat

def bits (f : UInt64 → UInt64 → UInt64) (a b : Int) : Int :=
  wrap (f (UInt64.ofInt a) (UInt64.ofInt b)).toNat

def apply (operator : String) (a b : Int) : Except Failure Int :=
  match operator with
  | "|" => .ok (bits (· ||| ·) a b)
  | "^" => .ok (bits (· ^^^ ·) a b)
  | "&" => .ok (bits (· &&& ·) a b)
  | "==" => .ok (truth (a = b))
  | "!=" => .ok (truth (a ≠ b))
  | "<" => .ok (truth (a < b))
  | "<=" => .ok (truth (a ≤ b))
  | ">" => .ok (truth (a > b))
  | ">=" => .ok (truth (a ≥ b))
  | "<<" => .ok (wrap (a * shiftFactor b))
  | ">>" => .ok (a / shiftFactor b)
  | "+" => .ok (wrap (a + b))
  | "-" => .ok (wrap (a - b))
  | "*" => .ok (wrap (a * b))
  | "/" => if b = 0 then .error .divisionByZero else .ok (wrap (a.tdiv b))
  | "%" => if b = 0 then .error .divisionByZero else .ok (a.tmod b)
  | _ => .error (.expecting "EOF")

/-- Evaluation keeps what has been assigned, the last first. -/
abbrev Evaluation := StateT (List (List Char × Int)) (Except Failure)

/-- The value of a name: what has been assigned to it, or what it had. -/
def valueOf (lookup : List Char → List Char) (name : List Char) : Evaluation Int := do
  match (← get).lookup name with
  | some n => return n
  | none =>
    match value? (lookup name) with
    | some n => return n
    | none => throw (.notANumber (lookup name))

mutual

/-- An assignment or a conditional expression, and the tokens after it. With `idle` nothing is
carried out. -/
def expression (lookup : List Char → List Char) :
    Nat → Bool → List Token → Evaluation (Int × List Token)
  | 0, _, _ => throw (.expecting "primary")
  | fuel + 1, idle, tokens => do
    match tokens with
    | .name name :: .operator o :: following =>
      match assignment? o with
      | none => conditional lookup fuel idle tokens
      | some change =>
        let (right, rest) ← expression lookup fuel idle following
        if idle then return (right, rest)
        let n ← match change with
          | none => pure right
          | some o => apply o (← valueOf lookup name) right
        modify ((name, n) :: ·)
        return (n, rest)
    | _ => conditional lookup fuel idle tokens

def conditional (lookup : List Char → List Char) :
    Nat → Bool → List Token → Evaluation (Int × List Token)
  | 0, _, _ => throw (.expecting "primary")
  | fuel + 1, idle, tokens => do
    let (a, rest) ← disjunction lookup fuel idle tokens
    match rest with
    | .operator "?" :: rest =>
      let (b, rest) ← expression lookup fuel (idle || a == 0) rest
      match rest with
      | .operator ":" :: rest =>
        let (c, rest) ← conditional lookup fuel (idle || a != 0) rest
        return (if a ≠ 0 then b else c, rest)
      | _ => throw (.expecting "':'")
    | _ => return (a, rest)

def disjunction (lookup : List Char → List Char) :
    Nat → Bool → List Token → Evaluation (Int × List Token)
  | 0, _, _ => throw (.expecting "primary")
  | fuel + 1, idle, tokens => do
    let (a, rest) ← conjunction lookup fuel idle tokens
    match rest with
    | .operator "||" :: rest =>
      let (b, rest) ← disjunction lookup fuel (idle || a != 0) rest
      return (truth (a ≠ 0 ∨ b ≠ 0), rest)
    | _ => return (a, rest)

def conjunction (lookup : List Char → List Char) :
    Nat → Bool → List Token → Evaluation (Int × List Token)
  | 0, _, _ => throw (.expecting "primary")
  | fuel + 1, idle, tokens => do
    let (first, rest) ← operand lookup fuel idle tokens
    let (a, rest) ← continued lookup fuel idle 0 first rest
    match rest with
    | .operator "&&" :: rest =>
      let (b, rest) ← conjunction lookup fuel (idle || a == 0) rest
      return (truth (a ≠ 0 ∧ b ≠ 0), rest)
    | _ => return (a, rest)

/-- What follows a left operand, as long as it binds at least as tightly as a level. -/
def continued (lookup : List Char → List Char) :
    Nat → Bool → Nat → Int → List Token → Evaluation (Int × List Token)
  | 0, _, _, _, _ => throw (.expecting "primary")
  | fuel + 1, idle, level, left, tokens => do
    match tokens with
    | .operator o :: rest =>
      match level? o with
      | none => return (left, tokens)
      | some binding =>
        if binding < level then return (left, tokens)
        let (first, rest) ← operand lookup fuel idle rest
        let (right, rest) ← continued lookup fuel idle (binding + 1) first rest
        let n ← if idle then pure right else apply o left right
        continued lookup fuel idle level n rest
    | _ => return (left, tokens)

/-- A number, a name, a negation, or an expression in parentheses. -/
def operand (lookup : List Char → List Char) :
    Nat → Bool → List Token → Evaluation (Int × List Token)
  | 0, _, _ => throw (.expecting "primary")
  | fuel + 1, idle, tokens => do
    match tokens with
    | .number n :: rest => return (n, rest)
    | .name name :: rest =>
      if idle then return (0, rest)
      return (← valueOf lookup name, rest)
    | .operator "(" :: rest =>
      match ← expression lookup fuel idle rest with
      | (n, .operator ")" :: rest) => return (n, rest)
      | _ => throw (.expecting "')'")
    | .operator "-" :: rest =>
      let (n, rest) ← operand lookup fuel idle rest
      return (wrap (-n), rest)
    | .operator "+" :: rest => operand lookup fuel idle rest
    | .operator "!" :: rest =>
      let (n, rest) ← operand lookup fuel idle rest
      return (truth (n = 0), rest)
    | .operator "~" :: rest =>
      let (n, rest) ← operand lookup fuel idle rest
      return (-n - 1, rest)
    | _ => throw (.expecting "primary")

end

/-- The value of an expression and what it assigns, the last first. -/
def evaluate (lookup : List Char → List Char) (text : List Char) :
    Except Failure (Int × List (List Char × Int)) := do
  let tokens := tokens (text.length + 1) text
  match ← (expression lookup (8 * tokens.length + 8) false tokens).run [] with
  | ((n, []), assigned) => return (n, assigned)
  | _ => throw (.expecting "EOF")

/-- What an expression that cannot be evaluated is told. -/
def Failure.message (text : String) : Failure → String
  | .expecting what => "arithmetic expression: expecting " ++ what ++ ": \"" ++ text ++ "\""
  | .divisionByZero => "arithmetic expression: division by zero: \"" ++ text ++ "\""
  | .notANumber value => "Illegal number: " ++ String.ofList value

end BitcodeReplay.Shell.Arithmetic
