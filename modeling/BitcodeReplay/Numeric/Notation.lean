import BitcodeReplay.Numeric.Binary64

/-!
Writing floating-point numbers: with a fixed number of places, with an exponent, or in the shorter
of both. The exact value of the number is rounded to the digits that are written.
-/

namespace BitcodeReplay.Numeric.Notation

def digits (n : Nat) : List Char := (toString n).toList

/-- Zeros before some digits up to a width. -/
def padded (width : Nat) (ds : List Char) : List Char :=
  List.replicate (width - ds.length) '0' ++ ds

/-- The digits before and after a point that is shown if something follows it. -/
def pointed (keepsPoint : Bool) (whole fraction : List Char) : List Char :=
  if fraction = [] then whole ++ (if keepsPoint then ['.'] else []) else whole ++ '.' :: fraction

/-- A quotient with a number of places. -/
def fixed (keepsPoint : Bool) (num den places : Nat) : List Char :=
  let ds := padded (places + 1) (digits (roundDiv (num * Nat.pow 10 places) den))
  pointed keepsPoint (ds.take (ds.length - places)) (ds.drop (ds.length - places))

/-- The power of ten below a positive quotient. The first argument bounds how far it is looked for
from a guess. -/
def tensOf (num den : Nat) : Nat → Int → Int
  | 0, guess => guess
  | bound + 1, guess =>
    let scale := fun power : Int => (Nat.pow 10 power.toNat, Nat.pow 10 (-power).toNat)
    let (up, down) := scale guess
    let (upNext, downNext) := scale (guess + 1)
    if num * down < den * up then tensOf num den bound (guess - 1)
    else if den * upNext ≤ num * downNext then tensOf num den bound (guess + 1)
    else guess

/-- The digits of a quotient, one more than `places`, and the power of ten of the first. -/
def leading (num den places : Nat) : List Char × Int :=
  if num = 0 then (List.replicate (places + 1) '0', 0)
  else
    let guess : Int := (digits num).length - (digits den).length
    let power := tensOf num den 8 guess
    let shift := (places : Int) - power
    let n := roundDiv (num * Nat.pow 10 shift.toNat) (den * Nat.pow 10 (-shift).toNat)
    if n = Nat.pow 10 (places + 1) then (digits (Nat.pow 10 places), power + 1)
    else (digits n, power)

def exponent (mark : Char) (least : Nat) (power : Int) : List Char :=
  mark :: (if power < 0 then '-' else '+') :: padded least (digits power.natAbs)

/-- A quotient with one digit before the point, a number of places and an exponent. -/
def scientific (keepsPoint : Bool) (num den places : Nat) : List Char :=
  let (ds, power) := leading num den places
  pointed keepsPoint (ds.take 1) (ds.drop 1) ++ exponent 'e' 2 power

/-- Digits without the zeros at their end. -/
def trimmed (ds : List Char) : List Char := (ds.reverse.dropWhile (· == '0')).reverse

/-- A quotient with a number of digits, with an exponent only if the number is very small or has more
digits before the point. Zeros at the end are left out unless they are kept. -/
def general (keepsZeros : Bool) (num den precision : Nat) : List Char :=
  let count := max precision 1
  let (ds, power) := leading num den (count - 1)
  let kept := fun ds : List Char => if keepsZeros then ds else trimmed ds
  if power < -4 || (count : Int) ≤ power then
    pointed keepsZeros (ds.take 1) (kept (ds.drop 1)) ++ exponent 'e' 2 power
  else if power < 0 then
    pointed keepsZeros ['0'] (kept (List.replicate ((-power).toNat - 1) '0' ++ ds))
  else
    pointed keepsZeros (ds.take (power.toNat + 1)) (kept (ds.drop (power.toNat + 1)))

/-- A number in hexadecimal digits with a power of two. -/
def hexadecimal (keepsPoint : Bool) (precision : Option Nat) (significand : Nat) (power : Int) :
    List Char :=
  let shown := fun (n : Nat) (places : Nat) (power : Int) =>
    let ds := padded (places + 1) (Nat.toDigits 16 n)
    let fraction := ds.drop (ds.length - places)
    let fraction := if precision.isNone then trimmed fraction else fraction
    "0x".toList ++ pointed keepsPoint (ds.take (ds.length - places)) fraction ++
      exponent 'p' 1 power
  if significand = 0 then shown 0 (precision.getD 0) 0
  else
    let isNormal := Nat.pow 2 52 ≤ significand
    let full := if isNormal then significand else significand * Nat.pow 2 (52 - significand.log2)
    let top : Int := power + significand.log2
    match precision with
    | none => shown full 13 top
    | some places =>
      if 13 ≤ places then shown (full * Nat.pow 16 (places - 13)) places top
      else shown (roundDiv full (Nat.pow 16 (13 - places))) places top

/-- A number under one of the letters `f`, `e`, `g` and `a`. -/
def write (letter : Char) (keepsPoint : Bool) (precision : Option Nat) : Binary64 → List Char
  | .infinite => ['i', 'n', 'f']
  | .undefined => ['n', 'a', 'n']
  | .finite significand power =>
    let num := significand * powerOfTwo power
    let den := powerOfTwo (-power)
    match letter with
    | 'f' => fixed keepsPoint num den (precision.getD 6)
    | 'e' => scientific keepsPoint num den (precision.getD 6)
    | 'a' => hexadecimal keepsPoint precision significand power
    | _ => general keepsPoint num den (precision.getD 6)

end BitcodeReplay.Numeric.Notation
