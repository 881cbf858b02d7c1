/-!
Numbers that look random: each is the sum of two before it.
-/

namespace BitcodeReplay.Numeric

/-- Whole random numbers, each from those before it: the last are kept, the oldest first. -/
structure Generator where
  recent : Array UInt32
  next : Nat

namespace Generator

/-- How many numbers are kept, and which of them is added to the oldest. -/
def length : Nat := 31

def distance : Nat := 28

/-- The numbers that a seed gives first. -/
def seeds : Nat → Int → List UInt32
  | 0, _ => []
  | n + 1, x =>
    let word := x * 16807 % 2147483647
    (x % 4294967296).toNat.toUInt32 :: seeds n word

/-- A number of 31 bits, and what comes after it. -/
def draw (g : Generator) : Nat × Generator :=
  let i := g.next % length
  let sum := g.recent.getD i 0 + g.recent.getD ((i + distance) % length) 0
  ((sum >>> 1).toNat, ⟨g.recent.set! i sum, (i + 1) % length⟩)

/-- Goes on behind some numbers. -/
def dropMany : Nat → Generator → Generator
  | 0, g => g
  | n + 1, g => dropMany n g.draw.2

def ofSeed (seed : Nat) : Generator :=
  let seed := if seed = 0 then 1 else seed % 4294967296
  let word : Int := if seed < 2147483648 then seed else (seed : Int) - 4294967296
  dropMany 310 ⟨(seeds length word).toArray, 3⟩

/-- The largest number that is drawn. -/
def largest : Nat := 2147483647

end Generator

end BitcodeReplay.Numeric
