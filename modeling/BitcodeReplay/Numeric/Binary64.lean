/-!
Binary floating-point numbers of 64 bits, as far as they are not negative. A number is kept as a
significand of at most 53 bits and a power of two, so that all arithmetic on it is exact until it is
rounded.
-/

namespace BitcodeReplay.Numeric

/-- The whole number nearest to a quotient; of two that are equally near, the even one. -/
def roundDiv (num den : Nat) : Nat :=
  let q := num / den
  if 2 * (num % den) < den then q
  else if den < 2 * (num % den) then q + 1
  else q + q % 2

/-- The factor that a power of two, or none if it is negative, puts before a number. -/
def powerOfTwo (exponent : Int) : Nat := Nat.pow 2 exponent.toNat

inductive Binary64 where
  | finite (significand : Nat) (exponent : Int)
  | infinite
  | undefined
  deriving DecidableEq, Repr

namespace Binary64

/-- The smallest exponent of a number, and the largest of one that is finite. -/
def minExponent : Int := -1074

def maxExponent : Int := 971

/-- The exponent at which a quotient has a significand of 53 bits, unless that is too small. -/
def exponentOf (num den : Nat) : Int :=
  let guess : Int := (num.log2 : Int) - den.log2 - 52
  let fits := den * powerOfTwo guess * Nat.pow 2 52 ≤ num * powerOfTwo (-guess)
  max minExponent (if fits then guess else guess - 1)

/-- The number nearest to a quotient. -/
def ofRatio (num den : Nat) : Binary64 :=
  if num = 0 then .finite 0 0
  else
    let exponent := exponentOf num den
    let significand := roundDiv (num * powerOfTwo (-exponent)) (den * powerOfTwo exponent)
    let carries := significand = Nat.pow 2 53
    let exponent := if carries then exponent + 1 else exponent
    if maxExponent < exponent then .infinite
    else .finite (if carries then Nat.pow 2 52 else significand) exponent

/-- A finite number as a quotient of whole numbers. -/
def ratio? : Binary64 → Option (Nat × Nat)
  | .finite significand exponent =>
    some (significand * powerOfTwo exponent, powerOfTwo (-exponent))
  | .infinite | .undefined => none

/-- The rounded product of two numbers. -/
def mul (a b : Binary64) : Binary64 :=
  match a.ratio?, b.ratio? with
  | some (m, d), some (n, e) => ofRatio (m * n) (d * e)
  | _, _ => .infinite

def isFinite : Binary64 → Bool
  | .finite _ _ => true
  | .infinite | .undefined => false

end Binary64

end BitcodeReplay.Numeric
