import BitcodeReplay.Numeric.Reading

/-!
Arithmetic on floating-point numbers with a sign, and the elementary functions. Each result of the
arithmetic is the exact one, rounded once. The functions are summed up in whole numbers of a small
unit that is far below the last bit of a result, so that rounding gives the nearest number.
-/

namespace BitcodeReplay.Numeric.Signed

def zero : Signed := ⟨false, .finite 0 0⟩

def undefined : Signed := ⟨false, .undefined⟩

/-- What comes of an operation that has no result. -/
def invalid : Signed := ⟨true, .undefined⟩

/-- The number nearest to a quotient with a sign. -/
def ofRatio (num : Int) (den : Nat) : Signed := ⟨num < 0, .ofRatio num.natAbs den⟩

def ofInt (n : Int) : Signed := ofRatio n 1

def ofNat (n : Nat) : Signed := ofInt n

def neg (a : Signed) : Signed := { a with negative := !a.negative }

def isUndefined (a : Signed) : Bool := a.magnitude == .undefined

def isInfinite (a : Signed) : Bool := a.magnitude == .infinite

def isZero (a : Signed) : Bool :=
  match a.magnitude with
  | .finite 0 _ => true
  | _ => false

/-- A finite number as a quotient. -/
def ratio? (a : Signed) : Option (Int × Nat) :=
  a.magnitude.ratio?.map fun (num, den) => (if a.negative then -(num : Int) else num, den)

/-- The whole number that is left of a finite number when its fraction is dropped. -/
def truncated? (a : Signed) : Option Int := a.ratio?.map fun (num, den) => num.tdiv den

/-- The number without its fraction. -/
def trunc (a : Signed) : Signed :=
  match a.magnitude.ratio? with
  | some (num, den) => ⟨a.negative, .ofRatio (num / den) 1⟩
  | none => a

/-- The whole number that a number is, if it is one. -/
def whole? (a : Signed) : Option Int :=
  a.ratio?.bind fun (num, den) => if num % den = 0 then some (num / den) else none

def add (a b : Signed) : Signed :=
  match a.magnitude, b.magnitude with
  | .undefined, _ | .infinite, .finite _ _ => a
  | _, .undefined | .finite _ _, .infinite => b
  | .infinite, .infinite => if a.negative = b.negative then a else invalid
  | .finite m e, .finite n f =>
    let least := min e f
    let part := fun (negative : Bool) (m : Nat) (e : Int) =>
      let n : Int := m <<< (e - least).toNat
      if negative then -n else n
    let sum := part a.negative m e + part b.negative n f
    if sum = 0 then ⟨a.negative && b.negative, .finite 0 0⟩
    else ofRatio (sum * powerOfTwo least) (powerOfTwo (-least))

def sub (a b : Signed) : Signed :=
  if b.isUndefined then (if a.isUndefined then a else b) else add a b.neg

def mul (a b : Signed) : Signed :=
  if a.isUndefined then a
  else if b.isUndefined then b
  else
    let negative := a.negative != b.negative
    match a.magnitude.ratio?, b.magnitude.ratio? with
    | some (m, d), some (n, e) => ⟨negative, .ofRatio (m * n) (d * e)⟩
    | _, _ => if a.isZero || b.isZero then invalid else ⟨negative, .infinite⟩

def div (a b : Signed) : Signed :=
  if a.isUndefined then a
  else if b.isUndefined then b
  else
    let negative := a.negative != b.negative
    match a.magnitude.ratio?, b.magnitude.ratio? with
    | some (m, d), some (n, e) =>
      if n = 0 then (if m = 0 then invalid else ⟨negative, .infinite⟩)
      else ⟨negative, .ofRatio (m * e) (d * n)⟩
    | none, some _ => ⟨negative, .infinite⟩
    | some _, none => ⟨negative, .finite 0 0⟩
    | none, none => invalid

/-- What is left of a number when another is taken away as often as it fits; it keeps its sign. -/
def mod (a b : Signed) : Signed :=
  if a.isUndefined then a
  else if b.isUndefined then b
  else
    match a.magnitude.ratio?, b.magnitude.ratio? with
    | some (m, d), some (n, e) =>
      if n = 0 then invalid else ⟨a.negative, .ofRatio ((m * e) % (n * d)) (d * e)⟩
    | none, _ => invalid
    | some _, none => a

/-- Whether a number is below another, the same, or above it; nothing if one of them is undefined. -/
def compare? (a b : Signed) : Option Ordering :=
  let rank := fun x : Signed => if x.isInfinite then (if x.negative then (-1 : Int) else 1) else 0
  if a.isUndefined || b.isUndefined then none
  else
    match a.ratio?, b.ratio? with
    | some (m, d), some (n, e) => some (compare (m * e) (n * d))
    | _, _ => some (compare (rank a) (rank b))

/-- The first number of a row of guesses that does not get smaller, from above the root of a number.
The first argument bounds the guesses. -/
def rootBelow (n : Nat) : Nat → Nat → Nat
  | 0, guess => guess
  | bound + 1, guess =>
    let next := (guess + n / guess) / 2
    if next < guess then rootBelow n bound next else guess

/-- The largest number whose square is at most another. -/
def squareRoot (n : Nat) : Nat :=
  if n = 0 then 0 else rootBelow n (n.log2 + 2) (Nat.pow 2 (n.log2 / 2 + 1))

/-- How many more bits of a root are found than a number has. -/
def guardBits : Nat := 1200

def sqrt (a : Signed) : Signed :=
  if a.isUndefined || a.isZero then a
  else if a.negative then invalid
  else
    match a.magnitude.ratio? with
    | some (num, den) =>
      ⟨false, .ofRatio (squareRoot ((num <<< (2 * guardBits)) / den)) (Nat.pow 2 guardBits)⟩
    | none => a

end BitcodeReplay.Numeric.Signed

namespace BitcodeReplay.Numeric.Elementary

/-- The sum of a row of terms in which each follows from the one before, given its place, until they
vanish. The first argument bounds how many there are. -/
def series (next : Nat → Int → Int) : Nat → Nat → Int → Int
  | 0, _, _ => 0
  | bound + 1, i, term => if term = 0 then 0 else term + series next bound (i + 1) (next i term)

/-- The sum of a row of odd powers, each found from the one before, divided by their exponents. The
first argument bounds how many there are. -/
def oddTerms (next : Int → Int) : Nat → Nat → Int → Int
  | 0, _, _ => 0
  | bound + 1, i, power =>
    if power = 0 || power = -1 then 0
    else power.tdiv (2 * i + 1) + oddTerms next bound (i + 1) (next power)

/-- The sum of the odd powers of a number divided by their exponents, with signs that change if
`alternates`. -/
def oddSeries (bits : Nat) (alternates : Bool) (z : Int) : Int :=
  let square := (z * z) >>> bits
  oddTerms (fun p => (if alternates then -(p * square) else p * square) >>> bits) (2 * bits) 0 z

/-- The logarithm of two, in units of so many bits. -/
def logOfTwo (bits : Nat) : Int := 2 * oddSeries bits false ((Nat.pow 2 bits : Int) / 3)

/-- The ratio of a circle to its diameter. -/
def circle (bits : Nat) : Int :=
  let one : Int := Nat.pow 2 bits
  16 * oddSeries bits true (one / 5) - 4 * oddSeries bits true (one / 239)

/-- How many bits all but very large numbers are given in. -/
def usualBits : Nat := 240

/-- A quotient in units of so many bits. -/
def inUnits (bits : Nat) (num : Int) (den : Nat) : Int := (num <<< bits) / den

/-- The number that so many units are. -/
def ofUnits (bits : Nat) (n : Int) : Signed := .ofRatio n (Nat.pow 2 bits)

/-- The power of e whose exponent is given in units. -/
def expOfUnits (bits : Nat) (x : Int) : Signed :=
  let two := logOfTwo bits
  let count := x / two
  if 1100 < count then ⟨false, .infinite⟩
  else if count < -1200 then .zero
  else
    let rest := x - count * two
    let one : Int := Nat.pow 2 bits
    let sum := series (fun i term => ((term * rest) >>> bits) / (i + 1)) bits 0 one
    .ofRatio (sum * powerOfTwo count) (Nat.pow 2 bits * powerOfTwo (-count))

def exp (a : Signed) : Signed :=
  match a.ratio? with
  | some (num, den) =>
    if 2000 * (den : Int) < num then ⟨false, .infinite⟩
    else if num < -2000 * (den : Int) then .zero
    else expOfUnits usualBits (inUnits usualBits num den)
  | none => if a.isUndefined then a else if a.negative then .zero else a

/-- The natural logarithm of a positive quotient, in units. -/
def logInUnits (bits num den : Nat) : Int :=
  let power : Int := (num.log2 : Int) - den.log2
  let one : Int := Nat.pow 2 bits
  let m := inUnits bits (num * powerOfTwo (-power) : Nat) (den * powerOfTwo power)
  let (m, power) := if 4 * one < 3 * m then (m / 2, power + 1) else (m, power)
  let z := ((m - one) <<< bits) / (m + one)
  2 * oddSeries bits false z + power * logOfTwo bits

def log (a : Signed) : Signed :=
  if a.isUndefined then a
  else if a.isZero then ⟨true, .infinite⟩
  else if a.negative then .invalid
  else
    match a.magnitude.ratio? with
    | some (num, den) => ofUnits usualBits (logInUnits usualBits num den)
    | none => a

/-- A power with a whole exponent. -/
def wholePower (num : Int) (den n : Nat) : Signed :=
  let negative := num < 0 && n % 2 = 1
  ⟨negative, .ofRatio (Nat.pow num.natAbs n) (Nat.pow den n)⟩

/-- The largest whole exponent for which a power is found by multiplying. -/
def maxWhole : Nat := 1100

def pow (a b : Signed) : Signed :=
  let one := Signed.ofNat 1
  let isOdd := b.whole?.any fun n => n % 2 = 1
  if b.isZero || (a.compare? one = some .eq) then one
  else if a.isUndefined then { a with negative := a.negative && !isOdd }
  else if b.isUndefined then b
  else if a.isZero then
    if b.negative then ⟨a.negative && isOdd, .infinite⟩ else ⟨a.negative && isOdd, .finite 0 0⟩
  else
    match a.ratio?, b.ratio? with
    | some (num, den), some (count, per) =>
      match b.whole? with
      | some n =>
        if n.natAbs ≤ maxWhole then
          if 0 ≤ n then wholePower num den n.natAbs
          else wholePower (if num < 0 then -(den : Int) else den) num.natAbs n.natAbs
        else
          let x := (count * logInUnits usualBits num.natAbs den) / per
          { expOfUnits usualBits x with negative := num < 0 && isOdd }
      | none =>
        if num < 0 then .invalid
        else expOfUnits usualBits ((count * logInUnits usualBits num.natAbs den) / per)
    | none, _ =>
      if b.negative then ⟨a.negative && isOdd, .finite 0 0⟩ else ⟨a.negative && isOdd, .infinite⟩
    | some _, none =>
      match ({ a with negative := false } : Signed).compare? one with
      | some .eq => one
      | some .gt => if b.negative then .zero else ⟨false, .infinite⟩
      | _ => if b.negative then ⟨false, .infinite⟩ else .zero

/-- The sine and the cosine of an angle in units that is at most a right one, either way. -/
def turn (bits : Nat) (x : Int) : Int × Int :=
  let square := (x * x) >>> bits
  let next := fun (first i : Nat) (term : Int) =>
    (-((term * square) >>> bits)).tdiv ((2 * i + first) * (2 * i + first + 1))
  (series (next 2) bits 0 x, series (next 1) bits 0 (Nat.pow 2 bits))

/-- The sine of an angle turned by so many right ones. -/
def sineFrom (quarters : Int) (a : Signed) : Signed :=
  match a.magnitude, a.ratio? with
  | .finite significand exponent, some (num, den) =>
    let size := (significand.log2 : Int) + exponent
    if size < -60 && quarters = 0 then a
    else
      let bits := usualBits + size.toNat
      let right := circle bits / 2
      let x := inUnits bits num den
      let count := (2 * x + right) / (2 * right)
      let (sine, cosine) := turn bits (x - count * right)
      ofUnits bits (match (count + quarters) % 4 with
        | 0 => sine
        | 1 => cosine
        | 2 => -sine
        | _ => -cosine)
  | _, _ => if a.isUndefined then a else .invalid

def sin (a : Signed) : Signed := sineFrom 0 a

def cos (a : Signed) : Signed := sineFrom 1 a

/-- The angle in units whose tangent is at most one. It is halved twice before it is summed up. -/
def arcUnits (bits : Nat) (z : Int) : Int :=
  let one : Int := Nat.pow 2 bits
  let halved := fun z : Int =>
    (z <<< bits) / (one + Signed.squareRoot ((one * one + z * z).toNat))
  4 * oddSeries bits true (halved (halved z))

/-- The angle of a point seen from the origin. -/
def atan2 (y x : Signed) : Signed :=
  let pi := circle usualBits
  let signed := fun n : Int => ofUnits usualBits (if y.negative then -n else n)
  if x.isUndefined then x
  else if y.isUndefined then y
  else if y.isZero then (if x.negative then signed pi else y)
  else
    match y.magnitude.ratio?, x.magnitude.ratio? with
    | none, none => signed (if x.negative then 3 * pi / 4 else pi / 4)
    | none, some _ => signed (pi / 2)
    | some _, none => if x.negative then signed pi else ⟨y.negative, .finite 0 0⟩
    | some (m, d), some (n, e) =>
      let up := m * e
      let along := n * d
      let tiny := (up.log2 : Int) - along.log2 < -60
      if tiny && !x.negative then y.div x
      else
        let angle :=
          if up ≤ along then arcUnits usualBits (inUnits usualBits up along)
          else pi / 2 - arcUnits usualBits (inUnits usualBits along up)
        signed (if x.negative then pi - angle else angle)

end BitcodeReplay.Numeric.Elementary
