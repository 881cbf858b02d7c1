import BitcodeReplay.Numeric.Binary64
import BitcodeReplay.Text.Bracket
import BitcodeReplay.Text.Utf8

/-!
Reading floating-point numbers as programs accept them: decimal or hexadecimal, with an exponent, or
one of the names of what is no number; and lengths of time, which are numbers with a unit.
-/

namespace BitcodeReplay.Numeric

/-- A number with its sign. -/
structure Signed where
  negative : Bool
  magnitude : Binary64
  deriving DecidableEq, Repr

namespace Reading

def valueOf (base : Nat) (digits : List Char) : Nat :=
  digits.foldl (fun n c =>
    n * base + (if Text.isDigit c then c.toNat - 48 else c.toLower.toNat - 87)) 0

/-- An exponent behind one of two marks, and what follows it. Without digits there is none. -/
def exponent (marks : List Char) (text : List Char) : Int × List Char :=
  match text with
  | mark :: rest =>
    if marks.contains mark then
      let negative := rest.head? = some '-'
      let digits := if negative || rest.head? = some '+' then rest.drop 1 else rest
      let run := digits.takeWhile Text.isDigit
      if run = [] then (0, text)
      else
        let n : Int := valueOf 10 run
        (if negative then -n else n, digits.drop run.length)
    else (0, text)
  | [] => (0, [])

/-- The digits before and after a point, and what follows them; nothing if there is none. -/
def digits? (isDigit : Char → Bool) (text : List Char) :
    Option (List Char × List Char × List Char) :=
  let whole := text.takeWhile isDigit
  let rest := text.drop whole.length
  let fraction := match rest with
    | '.' :: more => more.takeWhile isDigit
    | _ => []
  if whole = [] && fraction = [] then none
  else
    match rest with
    | '.' :: more => some (whole, fraction, more.drop fraction.length)
    | _ => some (whole, [], rest)

/-- A number times a power of a base, rounded. Powers that lead far out of range are cut short. -/
def scaled (base n : Nat) (power : Int) : Binary64 :=
  if n = 0 then .finite 0 0
  else
    let power := max (-6000) (min 6000 power)
    .ofRatio (n * Nat.pow base power.toNat) (Nat.pow base (-power).toNat)

def startsWith (name : String) (text : List Char) : Bool :=
  name.toList.isPrefixOf (text.map Char.toLower)

/-- A number without a sign. -/
def unsigned? (text : List Char) : Option (Binary64 × List Char) :=
  if startsWith "infinity" text then some (.infinite, text.drop 8)
  else if startsWith "inf" text then some (.infinite, text.drop 3)
  else if startsWith "nan" text then some (.undefined, text.drop 3)
  else
    let decimal := (digits? Text.isDigit text).map fun (whole, fraction, rest) =>
      let (power, rest) := exponent ['e', 'E'] rest
      (scaled 10 (valueOf 10 (whole ++ fraction)) (power - fraction.length), rest)
    if startsWith "0x" text then
      match digits? (Text.inClass "xdigit") (text.drop 2) with
      | none => decimal
      | some (whole, fraction, rest) =>
        let (power, rest) := exponent ['p', 'P'] rest
        some (scaled 2 (valueOf 16 (whole ++ fraction)) (power - 4 * fraction.length), rest)
    else decimal

/-- A number at the start of a text, behind blanks, and what follows it. -/
def number? (text : List Char) : Option (Signed × List Char) :=
  match text.dropWhile (Text.inClass "space") with
  | '-' :: rest => (unsigned? rest).map fun (n, rest) => (⟨true, n⟩, rest)
  | '+' :: rest => (unsigned? rest).map fun (n, rest) => (⟨false, n⟩, rest)
  | rest => (unsigned? rest).map fun (n, rest) => (⟨false, n⟩, rest)

/-- Whether digits write a number that is too large to be finite, or too small to have all of its
bits. -/
def isExtreme (text : List Char) (n : Binary64) : Bool :=
  let isDigit := if startsWith "0x" text then Text.inClass "xdigit" else Text.isDigit
  let text := if startsWith "0x" text then text.drop 2 else text
  let digits := text.takeWhile fun c => isDigit c || c == '.'
  match n with
  | .undefined => false
  | .infinite => digits != []
  | .finite significand _ =>
    significand < Nat.pow 2 52 && digits.any fun c => c != '0' && c != '.'

end Reading

end BitcodeReplay.Numeric

namespace BitcodeReplay.Shell.Delay

/-- The microseconds that a number stands for, with the letter of its unit behind it. -/
def ofWord? (word : Octets) : Option Nat :=
  match Numeric.Reading.number? word with
  | some (⟨false, n⟩, unit) =>
    let factor? := match unit with
      | [] | ['s'] => some 1
      | ['m'] => some 60
      | ['h'] => some 3600
      | ['d'] => some 86400
      | _ => none
    match factor?, n.ratio? with
    | some factor, some (num, den) => some (num * 1000000 * factor / den)
    | _, _ => none
  | _ => none

/-- The microseconds that words stand for together. -/
def ofWords (words : List Octets) : Nat :=
  words.foldl (fun n word => n + (ofWord? word).getD 0) 0

end BitcodeReplay.Shell.Delay
