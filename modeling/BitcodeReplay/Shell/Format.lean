import BitcodeReplay.Numeric.Notation
import BitcodeReplay.Numeric.Reading
import BitcodeReplay.Shell.Arithmetic
import BitcodeReplay.Text.Utf8

/-!
The escapes and the conversions of `echo` and `printf`. A conversion without an argument takes the
empty text or zero. The builtins and the programs of these names agree on most of this: a dialect
says whose rules count.
-/

namespace BitcodeReplay.Shell.Format

/-- Whose rules count. -/
inductive Dialect where
  | builtin
  | program
  deriving DecidableEq, Repr

def isOctal (c : Char) : Bool := '0' ≤ c && c ≤ '7'

/-- The byte that up to three octal digits write. -/
def octalByte (digits : Octets) : Char :=
  Char.ofNat (digits.foldl (fun n c => n * 8 + Arithmetic.digitValue c) 0 % 256)

/-- The character that a backslash and a letter stand for. -/
def letter? : Char → Option Char
  | 'a' => some '\x07'
  | 'b' => some '\x08'
  | 'e' => some '\x1b'
  | 'f' => some '\x0c'
  | 'n' => some '\n'
  | 'r' => some '\r'
  | 't' => some '\t'
  | 'v' => some '\x0b'
  | '\\' => some '\\'
  | _ => none

/-- The byte that `x` and hexadecimal digits write after a backslash, and what is left. -/
def hexadecimal? (dialect : Dialect) (text : Octets) : Option (Octets × Octets) :=
  match dialect, text with
  | .program, 'x' :: rest =>
    let digits := (rest.take 2).takeWhile (Arithmetic.isDigitIn 16)
    if digits = [] then none
    else some ([Char.ofNat (Arithmetic.digitsValue 16 digits)], rest.drop digits.length)
  | .program, 'u' :: rest =>
    let digits := (rest.take 4).takeWhile (Arithmetic.isDigitIn 16)
    if digits = [] then none
    else
      let n := Arithmetic.digitsValue 16 digits
      let shown := (Nat.toDigits 16 n).map Char.toUpper
      some (if n < 128 then [Char.ofNat n]
        else '\\' :: 'u' :: List.replicate (4 - shown.length) '0' ++ shown, rest.drop digits.length)
  | _, _ => none

/-- What comes after a backslash in a format stands for, and what is left. -/
def escape (dialect : Dialect) : Octets → Octets × Octets
  | [] => (['\\'], [])
  | c :: rest =>
    if isOctal c then
      let digits := ((c :: rest).take 3).takeWhile isOctal
      ([octalByte digits], (c :: rest).drop digits.length)
    else
      match hexadecimal? dialect (c :: rest) with
      | some found => found
      | none =>
        match letter? c with
        | some x => ([x], rest)
        | none =>
          if dialect = .program && c = '"' then ([c], rest) else (['\\'], c :: rest)

/-- Replaces the escapes of a text, and says whether `\c` ended it. A zero may stand before the
three digits of a byte. The first argument bounds the number of steps. -/
def unescape (dialect : Dialect) : Nat → Octets → Octets × Bool
  | 0, text => (text, false)
  | _ + 1, [] => ([], false)
  | bound + 1, '\\' :: rest =>
    match rest with
    | 'c' :: _ => ([], true)
    | '0' :: following =>
      let digits := (following.take 3).takeWhile isOctal
      let (more, ended) := unescape dialect bound (following.drop digits.length)
      (octalByte digits :: more, ended)
    | _ =>
      let (text, following) := escape dialect rest
      let (more, ended) := unescape dialect bound following
      (text ++ more, ended)
  | bound + 1, c :: rest =>
    let (more, ended) := unescape dialect bound rest
    (c :: more, ended)

/-- What the builtin `echo` writes. -/
def echo (words : List Octets) : Octets :=
  let (words, newline) :=
    match words with
    | ['-', 'n'] :: rest => (rest, false)
    | _ => (words, true)
  let line := List.intercalate [' '] words
  let (text, ended) := unescape .builtin line.length line
  if newline && !ended then text ++ ['\n'] else text

/-- The letters of the options that the program `echo` knows, and its other words. -/
def echoOptions (letters : Octets) : List Octets → Octets × List Octets
  | ('-' :: c :: more) :: rest =>
    if (c :: more).all ['n', 'e', 'E'].contains then echoOptions (letters ++ c :: more) rest
    else (letters, ('-' :: c :: more) :: rest)
  | rest => (letters, rest)

/-- What the program `echo` writes: escapes count only if they are asked for. -/
def plainEcho (words : List Octets) : Octets :=
  let (letters, words) := echoOptions [] words
  let line := List.intercalate [' '] words
  let escapes := (letters.filter (· != 'n')).getLast? == some 'e'
  let (text, ended) := if escapes then unescape .program line.length line else (line, false)
  if letters.contains 'n' || ended then text else text ++ ['\n']

/-- One conversion of a format. -/
structure Conversion where
  flags : Octets
  width : Nat
  precision : Option Nat
  letter : Char
  deriving DecidableEq, Repr

/-- What is wrong with an argument or with the format. The last two end the output. -/
inductive Complaint where
  | notANumber (text : Octets)
  | halfANumber (text : Octets)
  | outOfRange (text : Octets)
  | surplus (text : Octets)
  | invalidDirective (text : Octets)
  | missingLetter
  deriving DecidableEq, Repr

/-- Output so far, the arguments that are left, and what went wrong, with how much had been written
then. -/
structure State where
  output : Octets
  arguments : List Octets
  complaints : List (Nat × Complaint)
  ended : Bool

def State.complain (s : State) (complaints : List Complaint) : State :=
  { s with complaints := s.complaints ++ complaints.map fun c => (s.output.length, c) }

def State.add (s : State) (text : Octets) : State := { s with output := s.output ++ text }

/-- Pads a text to a width. -/
def pad (c : Conversion) (text : Octets) : Octets :=
  let gap := List.replicate (c.width - text.length) ' '
  if c.flags.contains '-' then text ++ gap else gap ++ text

/-- Puts a sign before some digits, and zeros between them if they fill the width. -/
def padNumber (c : Conversion) (zeros : Bool) (sign written : Octets) : Octets :=
  if zeros && c.flags.contains '0' && !c.flags.contains '-' then
    sign ++ List.replicate (c.width - sign.length - written.length) '0' ++ written
  else pad c (sign ++ written)

def signOf (c : Conversion) (negative : Bool) : Octets :=
  if negative then ['-']
  else if c.flags.contains '+' then ['+']
  else if c.flags.contains ' ' then [' ']
  else []

/-- A whole number as a conversion writes it. -/
def number (c : Conversion) (n : Int) : Octets :=
  let isSigned := c.letter = 'd' || c.letter = 'i'
  let magnitude := if isSigned then n.natAbs else (n % Arithmetic.wordCount).toNat
  let base := if c.letter = 'o' then 8 else if c.letter = 'x' || c.letter = 'X' then 16 else 10
  let digits := if c.precision = some 0 && magnitude = 0 then [] else Nat.toDigits base magnitude
  let digits := List.replicate (c.precision.getD 1 - digits.length) '0' ++ digits
  let marked := c.flags.contains '#'
  let digits := if marked && base = 8 && digits.head? ≠ some '0' then '0' :: digits else digits
  let sign :=
    if isSigned then signOf c (n < 0)
    else if marked && base = 16 && magnitude ≠ 0 then ['0', 'x']
    else []
  let text := padNumber c c.precision.isNone sign digits
  if c.letter = 'X' then text.map Char.toUpper else text

/-- A floating-point number as a conversion writes it. -/
def real (c : Conversion) (n : Numeric.Signed) : Octets :=
  let body := Numeric.Notation.write c.letter.toLower (c.flags.contains '#') c.precision n.magnitude
  let text :=
    match body with
    | '0' :: 'x' :: digits =>
      padNumber c true (signOf c n.negative ++ ['0', 'x']) digits
    | _ => padNumber c n.magnitude.isFinite (signOf c n.negative) body
  if Text.inClass "upper" c.letter then text.map Char.toUpper else text

/-- What is wrong with an argument of which some is left unread. -/
def leftover (whole : Octets) (read : Option Octets) : List Complaint :=
  match read with
  | none => if whole = [] then [] else [.notANumber whole]
  | some [] => []
  | some _ => [.halfANumber whole]

/-- The character after a quote at the start of an argument. -/
def quotedChar? : Octets → Option Nat
  | '\'' :: rest | '"' :: rest => some (rest.headD '\x00').toNat
  | _ => none

/-- The whole number an argument writes. -/
def wholeOf (unsigned : Bool) (text : Octets) : Int × List Complaint :=
  match quotedChar? text with
  | some n => (n, [])
  | none =>
    match Arithmetic.signed? Arithmetic.literal? text with
    | none => (0, leftover text none)
    | some (n, rest) =>
      let nearest : Int :=
        if unsigned then
          if n.natAbs < Arithmetic.wordCount then n else (Arithmetic.wordCount - 1 : Nat)
        else Arithmetic.saturate n
      let range := if n ≠ nearest then [Complaint.outOfRange text] else []
      (nearest, if rest = [] then range else leftover text (some rest))

/-- The floating-point number an argument writes. -/
def realOf (text : Octets) : Numeric.Signed × List Complaint :=
  match quotedChar? text with
  | some n => (⟨false, .ofRatio n 1⟩, [])
  | none =>
    match Numeric.Reading.number? text with
    | none => (⟨false, .finite 0 0⟩, leftover text none)
    | some (n, rest) =>
      let digits := (text.dropWhile (Text.inClass "space")).dropWhile fun c => c == '-' || c == '+'
      if rest = [] && Numeric.Reading.isExtreme digits n.magnitude then (n, [.outOfRange text])
      else (n, leftover text (some rest))

/-- Writes the next argument. -/
def convert (dialect : Dialect) (c : Conversion) (s : State) : State :=
  let argument := s.arguments.headD []
  let missing := s.arguments = []
  let s := { s with arguments := s.arguments.drop 1 }
  let cut := fun text : Octets => (c.precision.map text.take).getD text
  if c.letter = 's' then s.add (pad c (cut argument))
  else if c.letter = 'c' then
    s.add (pad c (if argument = [] && (dialect = .builtin || missing) then
      (if dialect = .builtin then ['\x00'] else []) else argument.take 1))
  else if c.letter = 'b' then
    let (text, ended) := unescape dialect argument.length argument
    { s.add (pad c (cut text)) with ended := ended }
  else if ['d', 'i', 'o', 'u', 'x', 'X'].contains c.letter then
    let (n, complaints) := wholeOf (!(['d', 'i'].contains c.letter)) argument
    (s.complain complaints).add (number c n)
  else
    let (n, complaints) := realOf argument
    (s.complain complaints).add (real c n)

/-- A width or a precision that the next argument gives. -/
def starred (s : State) : Int × State :=
  let (n, complaints) := wholeOf false (s.arguments.headD [])
  (n, { s with arguments := s.arguments.drop 1 }.complain complaints)

def letters : Octets :=
  ['s', 'c', 'b', 'd', 'i', 'u', 'o', 'x', 'X', 'e', 'E', 'f', 'F', 'g', 'G', 'a', 'A']

/-- Reads a conversion after its percent sign: what it is, or what is wrong with it, what is left of
the format, and the state after the arguments for its width and precision. -/
def conversion (text : Octets) (s : State) : Except Complaint Conversion × Octets × State :=
  let flags := text.takeWhile fun c => ['-', '+', ' ', '#', '0'].contains c
  let rest := text.drop flags.length
  let (width, flags, rest, s) :=
    match rest with
    | '*' :: rest =>
      let (n, s) := starred s
      (n.natAbs, if n < 0 then '-' :: flags else flags, rest, s)
    | _ =>
      let digits := rest.takeWhile Text.isDigit
      (Arithmetic.digitsValue 10 digits, flags, rest.drop digits.length, s)
  let (precision, rest, s) :=
    match rest with
    | '.' :: '*' :: rest =>
      let (n, s) := starred s
      (if n < 0 then none else some n.toNat, rest, s)
    | '.' :: rest =>
      let digits := rest.takeWhile Text.isDigit
      (some (Arithmetic.digitsValue 10 digits), rest.drop digits.length, s)
    | _ => (none, rest, s)
  match rest with
  | [] => (.error .missingLetter, [], s)
  | c :: rest =>
    if letters.contains c then (.ok ⟨flags, width, precision, c⟩, rest, s)
    else (.error (.invalidDirective ('%' :: text.take (text.length - rest.length))), rest, s)

/-- Writes a format once. The first argument bounds the number of steps. -/
def once (dialect : Dialect) : Nat → Octets → State → State
  | 0, _, s => s
  | _ + 1, [], s => s
  | bound + 1, '\\' :: rest, s =>
    if dialect = .program && rest.head? = some 'c' then { s with ended := true }
    else
      let (text, rest) := escape dialect rest
      once dialect bound rest (s.add text)
  | bound + 1, '%' :: '%' :: rest, s => once dialect bound rest (s.add ['%'])
  | bound + 1, '%' :: rest, s =>
    match conversion rest s with
    | (.ok c, rest, s) =>
      let s := convert dialect c s
      if s.ended then s else once dialect bound rest s
    | (.error e, _, s) => { s with ended := true }.complain [e]
  | bound + 1, c :: rest, s => once dialect bound rest (s.add [c])

/-- Writes a format until it has taken all arguments. A format that takes none is written once. -/
def repeated (dialect : Dialect) (format : Octets) : Nat → State → State
  | 0, s => s
  | bound + 1, s =>
    let after := once dialect (format.length + 1) format s
    if after.ended || after.arguments = [] then after
    else if after.arguments.length = s.arguments.length then
      after.complain [.surplus (after.arguments.headD [])]
    else repeated dialect format bound after

/-- What `printf` writes, and what it complains about after how much of that. -/
def printf (dialect : Dialect) (format : Octets) (arguments : List Octets) :
    Octets × List (Nat × Complaint) :=
  let s := repeated dialect format (arguments.length + 1) ⟨[], arguments, [], false⟩
  (s.output, s.complaints)

end BitcodeReplay.Shell.Format
