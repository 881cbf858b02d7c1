import BitcodeReplay.Numeric.Elementary
import BitcodeReplay.Shell.Format
import BitcodeReplay.Tool.Awk.Syntax
import BitcodeReplay.Tool.Awk.Table

/-!
What variables hold: numbers and texts. A text that was read counts as a number if it looks like one.
-/

namespace BitcodeReplay.Tool.Awk

open Numeric (Signed)

inductive Value where
  | unset
  | number (n : Signed)
  | text (t : Octets)
  | given (t : Octets)
  deriving DecidableEq, Repr

/-- The number at the start of a text; zero if there is none. -/
def leadingNumber (t : Octets) : Signed :=
  match Numeric.Reading.number? t with
  | some (n, _) => n
  | none => .zero

/-- The number that a text is as a whole, with blanks around it. -/
def wholeNumber? (t : Octets) : Option Signed :=
  let isSpace := Text.inClass "space"
  let body := ((t.dropWhile isSpace).reverse.dropWhile isSpace).reverse
  match body with
  | [] => none
  | c :: _ =>
    if Text.isDigit c || c = '.' || c = '+' || c = '-' then
      match Numeric.Reading.number? body with
      | some (n, []) => some n
      | _ => none
    else none

/-- Whole numbers are written as such up to these limits. -/
def largestWhole : Int := Nat.pow 2 64

def leastWhole : Int := -(Nat.pow 2 63 : Int)

/-- The whole number that is written for a number, if it is written as one. -/
def shownWhole? (n : Signed) : Option Int :=
  n.whole?.bind fun i =>
    if i = largestWhole then some (i - 1)
    else if leastWhole ≤ i && i < largestWhole then some i
    else none

namespace Value

/-- A value from a text that was read. -/
def ofBool (b : Bool) : Value := .number (.ofNat b.toNat)

def ofNat (n : Nat) : Value := .number (.ofNat n)

def ofInt (n : Int) : Value := .number (.ofInt n)

def toNumber : Value → Signed
  | .unset => .zero
  | .number n => n
  | .text t | .given t => leadingNumber t

/-- The number that a value is taken for when it is compared or tested, if it is. -/
def number? : Value → Option Signed
  | .unset => some .zero
  | .number n => some n
  | .text _ => none
  | .given t => wholeNumber? t

def isTrue (v : Value) : Bool :=
  match v, v.number? with
  | _, some n => !n.isZero
  | .text t, none | .given t, none => t != []
  | _, none => false

end Value

/-- A number for a conversion that writes whole numbers: without its fraction, and within the limits of
a word. -/
def wordOf (n : Signed) : Int :=
  match n.magnitude.ratio? with
  | some (num, den) =>
    let whole : Int := num / den
    if n.negative then max (-whole) (leastWhole + 1) else min whole (largestWhole - 1)
  | none =>
    if n.isUndefined then leastWhole
    else if n.negative then leastWhole + 1
    else largestWhole - 1

/-- What is wrong with a format. -/
inductive FormatFailure where
  | missing
  | unknown (place : Nat)
  deriving DecidableEq, Repr

/-- The conversion behind a percent sign, with the values for its width and its precision taken, and
what is left of the format and of the values. The first number counts the values that were taken. -/
structure Conversion where
  count : Nat
  flags : Octets
  width : Nat
  precision : Option Nat
  rest : Octets
  values : List Value

/-- A value that stands for a width or a precision. -/
def starValue (v : Value) : Int := (v.toNumber.truncated?.getD 0)

def conversionOf (count : Nat) (format : Octets) (values : List Value) : Except FormatFailure Conversion := do
  let flags := format.takeWhile fun c => ['-', '+', ' ', '#', '0'].contains c
  let rest := format.drop flags.length
  let c : Conversion ← match rest, values with
    | '*' :: _, [] => throw .missing
    | '*' :: rest, v :: values =>
      let n := starValue v
      pure ⟨count + 1, if n < 0 then '-' :: flags else flags, n.natAbs, none, rest, values⟩
    | _, _ =>
      let digits := rest.takeWhile Text.isDigit
      pure ⟨count, flags, Shell.Arithmetic.digitsValue 10 digits, none, rest.drop digits.length, values⟩
  match c.rest, c.values with
  | '.' :: '*' :: _, [] => throw .missing
  | '.' :: '*' :: rest, v :: values =>
    let n := starValue v
    return { c with
      count := c.count + 1, precision := if n < 0 then none else some n.toNat, rest := rest, values := values }
  | '.' :: rest, _ =>
    let digits := rest.takeWhile Text.isDigit
    return { c with
      precision := some (Shell.Arithmetic.digitsValue 10 digits), rest := rest.drop digits.length }
  | _, _ => return c

/-- Writes values as a format says. `textOf` gives the text of a value. What had been written comes back
with a complaint. The first argument bounds the length of the format. -/
def formatted (textOf : Value → Octets) : Nat → Nat → Octets → Octets → List Value →
    Octets × Option FormatFailure
  | 0, _, done, _, _ => (done.reverse, none)
  | bound + 1, count, done, format, values =>
    match format with
    | [] => (done.reverse, none)
    | '%' :: '%' :: rest => formatted textOf bound count ('%' :: done) rest values
    | '%' :: rest =>
      match conversionOf count rest values with
      | .error e => (done.reverse, some e)
      | .ok c =>
        let letters := c.rest.dropWhile fun x => x == 'l' || x == 'h'
        match letters, c.values with
        | _, [] => (done.reverse, some .missing)
        | [], _ => (done.reverse, some (.unknown (c.count + 1)))
        | letter :: rest, v :: values =>
          let conversion : Shell.Format.Conversion := ⟨c.flags, c.width, c.precision, letter⟩
          let text? : Option Octets :=
            if letter = 's' then
              let t := textOf v
              some (Shell.Format.pad conversion ((c.precision.map t.take).getD t))
            else if letter = 'c' then
              let t := match v with
                | .text t => if t = [] then ['\x00'] else t.take 1
                | _ =>
                  match v.number? with
                  | some n => [Char.ofNat ((n.truncated?.getD 0) % 256).toNat]
                  | none => (textOf v).take 1
              some (Shell.Format.pad conversion t)
            else if ['d', 'i', 'o', 'x', 'X', 'u'].contains letter then
              some (Shell.Format.number conversion (wordOf v.toNumber))
            else if ['e', 'E', 'f', 'F', 'g', 'G', 'a', 'A'].contains letter then
              some (Shell.Format.real conversion v.toNumber)
            else none
          match text? with
          | some t => formatted textOf bound (c.count + 1) (t.reverse ++ done) rest values
          | none => (done.reverse, some (.unknown (c.count + 1)))
    | c :: rest => formatted textOf bound count (c :: done) rest values

/-- The text of a number: a whole number as such, and another one in a format. -/
def numberText (format : Octets) (n : Signed) : Octets :=
  match shownWhole? n with
  | some i => wholeText i
  | none => (formatted (fun _ => []) (format.length + 1) 0 [] format [.number n]).1

def Value.toText (format : Octets) : Value → Octets
  | .unset => []
  | .number n => numberText format n
  | .text t | .given t => t

/-- What a value is as a key of a table. -/
def Value.key (format : Octets) : Value → Key
  | .number n =>
    match n.whole? with
    | some i => if -2147483648 ≤ i && i ≤ 2147483647 then .number i else .text (numberText format n)
    | none => .text (numberText format n)
  | v => .text (v.toText format)

/-- Whether one value comes before another, is the same, or comes after it: as numbers if both are
taken for such, and else as texts. What is no number passes for any. -/
def Value.compare (format : Octets) (a b : Value) : Ordering :=
  match a.number?, b.number? with
  | some m, some n => (m.compare? n).getD .eq
  | _, _ =>
    let s := a.toText format
    let t := b.toText format
    if s = t then .eq else if s.isLe t then .lt else .gt

def Comparison.holds : Comparison → Ordering → Bool
  | .less, o => o == .lt
  | .atMost, o => o != .gt
  | .same, o => o == .eq
  | .differs, o => o != .eq
  | .greater, o => o == .gt
  | .atLeast, o => o != .lt

def Operation.result : Operation → Signed → Signed → Signed
  | .add, a, b => a.add b
  | .subtract, a, b => a.sub b
  | .multiply, a, b => a.mul b
  | .divide, a, b => a.div b
  | .remainder, a, b => a.mod b
  | .power, a, b => Numeric.Elementary.pow a b

end BitcodeReplay.Tool.Awk
