import BitcodeReplay.Shell.Arithmetic
import BitcodeReplay.Shell.Session

/-!
The conditions that `test` decides, on texts, whole numbers and files. The words are read from the
left, with one word to look ahead; what the end of the words leaves open counts as false.
-/

namespace BitcodeReplay.Shell.Condition

/-- Why a condition cannot be decided. -/
inductive Failure where
  | notANumber (text : Octets)
  | unexpectedOperator (text : Octets)
  | missingArgument (operator : String)
  | openParenthesis
  deriving DecidableEq, Repr

def Failure.message : Failure → String
  | .notANumber text => "Illegal number: " ++ text.toText
  | .unexpectedOperator text =>
    if text = [] then "unexpected operator" else text.toText ++ ": unexpected operator"
  | .missingArgument operator => operator ++ ": argument expected"
  | .openParenthesis => "closing paren expected"

def number (text : Octets) : Except Failure Int :=
  match Arithmetic.decimalValue? text with
  | some n => .ok n
  | none => .error (.notANumber text)

/-- What is known of the file at a path. -/
inductive File where
  | regular (size mode : Nat)
  | directory (mode : Nat)
  | link
  | special (kind : Special)
  deriving DecidableEq, Repr

/-- The file at a path, with links followed or not. -/
def file? (s : Session) (follow : Bool) (path : Octets) : Option File :=
  match s.entryAt follow path with
  | some (loc, .file bytes executable) =>
    some (.regular bytes.size (s.toWorld.modeOf loc (.file bytes executable)))
  | some (loc, .dir) => some (.directory (s.toWorld.modeOf loc .dir))
  | some (_, .link _) => some .link
  | some (_, .special kind) => some (.special kind)
  | none => none

def File.mode : File → Nat
  | .regular _ mode | .directory mode => mode
  | .link | .special _ => 0

def unaryOperators : List String :=
  ["-r", "-w", "-x", "-e", "-f", "-d", "-c", "-b", "-p", "-u", "-g", "-k", "-s", "-t", "-z", "-n",
    "-h", "-O", "-G", "-L", "-S"]

def binaryOperators : List String :=
  ["=", "!=", "<", ">", "-eq", "-ne", "-ge", "-gt", "-le", "-lt", "-nt", "-ot", "-ef"]

/-- A condition on one word. -/
def unary (s : Session) (operator : String) (word : Octets) : Except Failure Bool :=
  let file := file? s true word
  match operator with
  | "-n" => .ok (word ≠ [])
  | "-z" => .ok (word = [])
  | "-t" => (number word).map fun _ => false
  | "-f" => .ok (file.any fun f => match f with | .regular _ _ => true | _ => false)
  | "-d" => .ok (file.any fun f => match f with | .directory _ => true | _ => false)
  | "-s" => .ok (file.any fun f =>
      match f with | .regular size _ => size > 0 | .directory _ => true | _ => false)
  | "-x" => .ok (file.any fun f =>
      match f with | .regular _ mode => mode &&& 0o111 != 0 | .directory _ => true | _ => false)
  | "-c" => .ok (file.any fun f => match f with | .special kind => kind != .pipe | _ => false)
  | "-p" => .ok (file == some (.special .pipe))
  | "-h" | "-L" => .ok (file? s false word == some .link)
  | "-u" => .ok (file.any fun f => f.mode &&& 0o4000 != 0)
  | "-g" => .ok (file.any fun f => f.mode &&& 0o2000 != 0)
  | "-k" => .ok (file.any fun f => f.mode &&& 0o1000 != 0)
  | "-S" | "-b" => .ok false
  | _ => .ok file.isSome

/-- The times of two files, if both are there. -/
def times? (s : Session) (a b : Octets) : Option (Int × Int) :=
  match s.entryAt true a, s.entryAt true b with
  | some (l, _), some (m, _) => some (s.toWorld.timeOf l, s.toWorld.timeOf m)
  | _, _ => none

/-- A condition on two words. -/
def binary (s : Session) (operator : String) (a b : Octets) : Except Failure Bool :=
  let compare := fun (p : Int → Int → Bool) => do return p (← number a) (← number b)
  match operator with
  | "=" => .ok (a == b)
  | "!=" => .ok (a != b)
  | "<" => .ok (a != b && Octets.isLe a b)
  | ">" => .ok (a != b && Octets.isLe b a)
  | "-eq" => compare fun m n => m == n
  | "-ne" => compare fun m n => m != n
  | "-lt" => compare fun m n => m < n
  | "-le" => compare fun m n => m ≤ n
  | "-gt" => compare fun m n => m > n
  | "-ge" => compare fun m n => m ≥ n
  | "-nt" => .ok ((times? s a b).any fun (t, u) => u < t)
  | "-ot" => .ok ((times? s a b).any fun (t, u) => t < u)
  | _ =>
    match s.entryAt true a, s.entryAt true b with
    | some (l, _), some (m, _) => .ok ((s.toWorld.placesOf l).contains m)
    | _, _ => .ok false

/-- What a word counts as where it stands. -/
inductive Lexeme where
  | none
  | operand
  | unary (operator : String)
  | binary (operator : String)
  | negation
  | conjunction
  | disjunction
  | opening
  | closing
  deriving DecidableEq, Repr

/-- What the first of some words counts as. An operator on one word that has none after it, or that
stands before another operator, is a word itself. -/
def lexeme : List Octets → Lexeme
  | [] => .none
  | word :: rest =>
    let text := word.toText
    let isWord :=
      match rest with
      | [] => true
      | [_] => false
      | next :: _ => binaryOperators.contains next.toText
    if unaryOperators.contains text then if isWord then .operand else .unary text
    else if binaryOperators.contains text then .binary text
    else if text = "!" then .negation
    else if text = "-a" then .conjunction
    else if text = "-o" then .disjunction
    else if text = "(" then if rest = [] then .operand else .opening
    else if text = ")" then .closing
    else .operand

mutual

/-- A choice, and the words from the last one that it has taken on. -/
def choice (s : Session) : Nat → Lexeme → List Octets → Except Failure (Bool × List Octets)
  | 0, _, words => .ok (false, words)
  | bound + 1, first, words => do
    let (answer, rest) ← conjunction s bound first words
    if lexeme (rest.drop 1) = .disjunction then
      let (other, rest) ← choice s bound (lexeme (rest.drop 2)) (rest.drop 2)
      return (answer || other, rest)
    else return (answer, rest)

def conjunction (s : Session) : Nat → Lexeme → List Octets → Except Failure (Bool × List Octets)
  | 0, _, words => .ok (false, words)
  | bound + 1, first, words => do
    let (answer, rest) ← negation s bound first words
    if lexeme (rest.drop 1) = .conjunction then
      let (other, rest) ← conjunction s bound (lexeme (rest.drop 2)) (rest.drop 2)
      return (answer && other, rest)
    else return (answer, rest)

def negation (s : Session) : Nat → Lexeme → List Octets → Except Failure (Bool × List Octets)
  | 0, _, words => .ok (false, words)
  | bound + 1, first, words => do
    if first = .negation then
      let next := lexeme (words.drop 1)
      let (answer, rest) ← negation s bound next (if next = .none then words else words.drop 1)
      return (!answer, rest)
    else primary s bound first words

/-- A condition without connectives, or one in parentheses. -/
def primary (s : Session) : Nat → Lexeme → List Octets → Except Failure (Bool × List Octets)
  | 0, _, words => .ok (false, words)
  | bound + 1, first, words => do
    match first with
    | .none => return (false, words)
    | .opening =>
      let inner := words.drop 1
      if lexeme inner = .closing then return (false, inner)
      let (answer, rest) ← choice s bound (lexeme inner) inner
      if lexeme (rest.drop 1) = .closing then return (answer, rest.drop 1)
      throw .openParenthesis
    | .unary operator =>
      match words.drop 1 with
      | [] => throw (.missingArgument operator)
      | word :: rest => return (← unary s operator word, word :: rest)
    | _ =>
      match lexeme (words.drop 1) with
      | .binary operator =>
        match words.drop 2 with
        | [] => throw (.missingArgument operator)
        | word :: rest => return (← binary s operator (words.headD []) word, word :: rest)
      | _ => return (words.headD [] ≠ [], words)

end

/-- Whether the condition of some words holds. Three words around an operator are compared, whatever
they are, and parentheses around one or two words say nothing. -/
def holds (s : Session) (words : List Octets) : Except Failure Bool := do
  if words = [] then return false
  let isComparison :=
    words.length == 3 && binaryOperators.contains ((words.drop 1).headD []).toText
  let isWrapped := (words.length == 3 || words.length == 4) && words.head? == some ['('] &&
    words.getLast? == some [')']
  let words := if isWrapped && !isComparison then (words.drop 1).dropLast else words
  let first := if isComparison then .operand else lexeme words
  let (answer, rest) ← choice s (4 * words.length + 8) first words
  if rest.length > 1 then throw (.unexpectedOperator (rest.headD []))
  return answer

end BitcodeReplay.Shell.Condition
