import BitcodeReplay.Json.Basic
import BitcodeReplay.Numeric.Binary64
import BitcodeReplay.Text.Search

/-!
JSON text, read as far as it goes. A draft is the tree of a text up to the place where the text
stops being JSON, so that a decoder which walks the draft in the order of the text meets a wrong
type or the end of the sense in it, whichever comes first. A decoder that needs a whole value
settles the draft first.
-/

namespace BitcodeReplay.Json

/-- A text and how far it makes sense. A string or a name is absent where its escapes stand for no
text; a container that is not closed breaks off after its last part. -/
inductive Draft where
  | broken
  | null
  | bool (b : Bool)
  | number (literal : List Char)
  | string (text : Option String)
  | array (items : List Draft) (closed : Bool)
  | object (members : List (Option String × Draft)) (closed : Bool)
  deriving Inhabited

/-- The white space of JSON. -/
def isSpace (c : Char) : Bool := c == ' ' || c == '\t' || c == '\n' || c == '\r'

def skipSpace (cs : List Char) : List Char := cs.dropWhile isSpace

def hexValue? (c : Char) : Option Nat :=
  if '0' ≤ c ∧ c ≤ '9' then some (c.toNat - 48)
  else if 'a' ≤ c ∧ c ≤ 'f' then some (c.toNat - 87)
  else if 'A' ≤ c ∧ c ≤ 'F' then some (c.toNat - 55)
  else none

/-- A part of a string: a character as it stands, or the UTF-16 unit of an escape. -/
inductive Piece where
  | char (c : Char)
  | unit (n : Nat)
  deriving DecidableEq, Repr

/-- What a one-letter escape stands for. -/
def shortEscape? (c : Char) : Option Char :=
  if c = '"' ∨ c = '\\' ∨ c = '/' then some c
  else if c = 'b' then some '\x08'
  else if c = 'f' then some '\x0c'
  else if c = 'n' then some '\n'
  else if c = 'r' then some '\r'
  else if c = 't' then some '\t'
  else none

/-- The parts of a string up to its closing quote, and the text after it. -/
def pieces : List Char → Option (List Piece × List Char)
  | [] => none
  | '"' :: rest => some ([], rest)
  | '\\' :: 'u' :: a :: b :: c :: d :: rest =>
    match hexValue? a, hexValue? b, hexValue? c, hexValue? d with
    | some a, some b, some c, some d =>
      (pieces rest).map fun p => (.unit (((a * 16 + b) * 16 + c) * 16 + d) :: p.1, p.2)
    | _, _, _, _ => none
  | '\\' :: c :: rest =>
    match shortEscape? c with
    | some c => (pieces rest).map fun p => (.char c :: p.1, p.2)
    | none => none
  | c :: rest =>
    if c.toNat < 0x20 ∨ c = '\\' then none
    else (pieces rest).map fun p => (.char c :: p.1, p.2)

/-- The text of a string, in which a surrogate counts only as one of a pair. -/
def joinPieces : List Piece → Option (List Char)
  | [] => some []
  | .char c :: rest => (joinPieces rest).map (c :: ·)
  | .unit h :: .unit l :: rest =>
    if 0xD800 ≤ h ∧ h < 0xDC00 then
      if 0xDC00 ≤ l ∧ l < 0xE000 then
        (joinPieces rest).map (Char.ofNat (0x10000 + (h - 0xD800) * 0x400 + (l - 0xDC00)) :: ·)
      else none
    else if 0xDC00 ≤ h ∧ h < 0xE000 then none
    else (joinPieces (.unit l :: rest)).map (Char.ofNat h :: ·)
  | .unit n :: rest =>
    if 0xD800 ≤ n ∧ n < 0xE000 then none else (joinPieces rest).map (Char.ofNat n :: ·)

/-- A string after its opening quote. -/
def readString (cs : List Char) : Option (Option String × List Char) :=
  (pieces cs).map fun p => ((joinPieces p.1).map String.ofList, p.2)

/-- At least one digit, and the text after the digits. -/
def digits (cs : List Char) : Option (List Char × List Char) :=
  if cs.takeWhile Char.isDigit = [] then none
  else some (cs.takeWhile Char.isDigit, cs.dropWhile Char.isDigit)

/-- The integer part of a number: no digit follows a zero at its start. -/
def integerPart : List Char → Option (List Char × List Char)
  | '0' :: c :: rest => if c.isDigit then none else some (['0'], c :: rest)
  | cs => digits cs

def fractionPart : List Char → Option (List Char × List Char)
  | '.' :: rest => (digits rest).map fun p => ('.' :: p.1, p.2)
  | cs => some ([], cs)

def exponentPart : List Char → Option (List Char × List Char)
  | e :: s :: rest =>
    if e = 'e' ∨ e = 'E' then
      if s = '+' ∨ s = '-' then (digits rest).map fun p => (e :: s :: p.1, p.2)
      else (digits (s :: rest)).map fun p => (e :: p.1, p.2)
    else some ([], e :: s :: rest)
  | [e] => if e = 'e' ∨ e = 'E' then none else some ([], [e])
  | [] => some ([], [])

/-- A number without its sign. -/
def unsignedNumber (cs : List Char) : Option (List Char × List Char) := do
  let (whole, cs) ← integerPart cs
  let (fraction, cs) ← fractionPart cs
  let (exponent, cs) ← exponentPart cs
  return (whole ++ fraction ++ exponent, cs)

def readNumber : List Char → Option (List Char × List Char)
  | '-' :: rest => (unsignedNumber rest).map fun p => ('-' :: p.1, p.2)
  | cs => unsignedNumber cs

/-- A literal that has to stand here, and the draft it means. -/
def readLiteral (literal : String) (draft : Draft) (cs : List Char) : Draft × Option (List Char) :=
  match Text.dropStart? literal.toList cs with
  | some rest => (draft, some rest)
  | none => (.broken, none)

mutual

/-- One value, and the text after it unless the value breaks off. -/
def readValue : Nat → List Char → Draft × Option (List Char)
  | 0, _ => (.broken, none)
  | fuel + 1, cs =>
    match skipSpace cs with
    | [] => (.broken, none)
    | c :: rest =>
      if c = '[' then
        match skipSpace rest with
        | ']' :: rest => (.array [] true, some rest)
        | rest =>
          let (items, after) := readItems fuel rest
          (.array items after.isSome, after)
      else if c = '\x7b' then
        match skipSpace rest with
        | '\x7d' :: rest => (.object [] true, some rest)
        | rest =>
          let (members, after) := readMembers fuel rest
          (.object members after.isSome, after)
      else if c = '"' then
        match readString rest with
        | some (text, rest) => (.string text, some rest)
        | none => (.broken, none)
      else if c = 'n' then readLiteral "null" .null (c :: rest)
      else if c = 't' then readLiteral "true" (.bool true) (c :: rest)
      else if c = 'f' then readLiteral "false" (.bool false) (c :: rest)
      else
        match readNumber (c :: rest) with
        | some (literal, rest) => (.number literal, some rest)
        | none => (.broken, none)

/-- The items of an array up to its closing bracket. -/
def readItems : Nat → List Char → List Draft × Option (List Char)
  | 0, _ => ([], none)
  | fuel + 1, cs =>
    match readValue fuel cs with
    | (item, none) => ([item], none)
    | (item, some rest) =>
      match skipSpace rest with
      | ']' :: rest => ([item], some rest)
      | ',' :: rest =>
        let (items, after) := readItems fuel rest
        (item :: items, after)
      | _ => ([item], none)

/-- The members of an object up to its closing brace. -/
def readMembers : Nat → List Char → List (Option String × Draft) × Option (List Char)
  | 0, _ => ([], none)
  | fuel + 1, cs =>
    match skipSpace cs with
    | '"' :: rest =>
      match readString rest with
      | none => ([], none)
      | some (name, rest) =>
        match skipSpace rest with
        | ':' :: rest =>
          match readValue fuel rest with
          | (value, none) => ([(name, value)], none)
          | (value, some rest) =>
            match skipSpace rest with
            | '\x7d' :: rest => ([(name, value)], some rest)
            | ',' :: rest =>
              let (members, after) := readMembers fuel rest
              ((name, value) :: members, after)
            | _ => ([(name, value)], none)
        | _ => ([(name, .broken)], none)
    | _ => ([], none)

end

/-- The draft of a text, and whether nothing but white space follows the value. -/
def Draft.read (text : List Char) : Draft × Bool :=
  match readValue (2 * text.length + 2) text with
  | (draft, none) => (draft, false)
  | (draft, some rest) => (draft, skipSpace rest = [])

/-- The value of the digits before a character that is none, and the rest. -/
def leadingNat (cs : List Char) : Nat :=
  (cs.takeWhile Char.isDigit).foldl (fun n c => 10 * n + (c.toNat - 48)) 0

/-- The largest number that a word of 64 bits holds. -/
def maxWord : Nat := Nat.pow 2 64 - 1

/-- Takes the digits of a whole number into a word of 64 bits as long as they fit, and counts those
that it leaves out. -/
def takeWhole : Nat → List Char → Nat × Nat
  | word, [] => (word, 0)
  | word, c :: rest =>
    if word * 10 + (c.toNat - 48) ≤ maxWord then takeWhole (word * 10 + (c.toNat - 48)) rest
    else (word, rest.length + 1)

/-- Takes the digits after the point into a word of 64 bits up to the first that does not fit, and
counts those that it takes. -/
def takeFraction : Nat → List Char → Nat × Nat
  | word, [] => (word, 0)
  | word, c :: rest =>
    if word * 10 + (c.toNat - 48) ≤ maxWord then
      let (taken, count) := takeFraction (word * 10 + (c.toNat - 48)) rest
      (taken, count + 1)
    else (word, 0)

/-- The leading digits of a number literal, as many as fit into a word of 64 bits, and the power of
ten that they are multiplied by. -/
def scaled (literal : List Char) : Nat × Int :=
  let unsigned := literal.dropWhile (· == '-')
  let isMark := fun c => c == 'e' || c == 'E'
  let mantissa := unsigned.takeWhile fun c => !isMark c
  let (whole, left) := takeWhole 0 (mantissa.takeWhile (· != '.'))
  let (word, places) := takeFraction whole ((mantissa.dropWhile (· != '.')).drop 1)
  let power : Int :=
    match (unsigned.dropWhile fun c => !isMark c).drop 1 with
    | '-' :: rest => -leadingNat rest
    | '+' :: rest => leadingNat rest
    | rest => leadingNat rest
  (word, left - places + power)

/-- The largest power of ten that is a finite floating-point number. -/
def maxTens : Int := 308

/-- The number is finite when its leading digits and its power of ten are rounded, each on its own
and then their product. -/
def isFinite (literal : List Char) : Bool :=
  let (word, tens) := scaled literal
  if word = 0 || tens ≤ 0 then true
  else if maxTens < tens then false
  else
    ((Numeric.Binary64.ofRatio word 1).mul
      (Numeric.Binary64.ofRatio (Nat.pow 10 tens.toNat) 1)).isFinite

mutual

/-- The value of a draft that makes sense to its end, with at most `room` containers inside each
other. A name that is repeated keeps its first place and takes its last value. -/
def Draft.settle (room : Nat) : Draft → Option Json
  | .broken => none
  | .null => some .null
  | .bool b => some (.bool b)
  | .number literal =>
    if isFinite literal then some (.number (String.ofList literal)) else none
  | .string text => text.map .string
  | .array items closed =>
    match room with
    | 0 => none
    | room + 1 => if closed then (settleItems room items).map .array else none
  | .object members closed =>
    match room with
    | 0 => none
    | room + 1 => if closed then (settleMembers room members []).map .object else none

def settleItems (room : Nat) : List Draft → Option (List Json)
  | [] => some []
  | item :: rest => do
    let value ← item.settle room
    let values ← settleItems room rest
    return value :: values

def settleMembers (room : Nat) :
    List (Option String × Draft) → List (String × Json) → Option (List (String × Json))
  | [], known => some known
  | (none, _) :: _, _ => none
  | (some name, value) :: rest, known => do
    let value ← value.settle room
    settleMembers room rest (setMember name value known)

end

/-- How many containers may stand inside each other in a text. -/
def maxDepth : Nat := 127

/-- The value of a whole text. -/
def ofText? (text : String) : Option Json :=
  match Draft.read text.toList with
  | (draft, true) => draft.settle maxDepth
  | (_, false) => none

mutual

/-- The draft makes sense to its end, whatever its strings and numbers stand for. -/
def Draft.isWhole : Draft → Bool
  | .broken => false
  | .null | .bool _ | .number _ | .string _ => true
  | .array items closed => wholeItems items && closed
  | .object members closed => wholeMembers members && closed

def wholeItems : List Draft → Bool
  | [] => true
  | item :: rest => item.isWhole && wholeItems rest

def wholeMembers : List (Option String × Draft) → Bool
  | [] => true
  | (_, value) :: rest => value.isWhole && wholeMembers rest

end

end BitcodeReplay.Json
