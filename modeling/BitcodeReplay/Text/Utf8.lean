/-!
Text from bytes, and bytes as characters. Bytes that are no part of a character are replaced, one
replacement for each longest start of a character. Where bytes are only nearly text, each is written
as the character of its number, so that they can be read like text and nothing is lost.
-/

namespace BitcodeReplay.Utf8

/-- A character of which some bytes have been read: how many are missing, the bounds of the next
one, and the bits so far. -/
structure Partial where
  missing : Nat
  low : Nat
  high : Nat
  bits : Nat
  deriving DecidableEq, Repr

/-- What the first byte of a character says about the rest; nothing for a byte that starts none. -/
def opening? (b : Nat) : Option Partial :=
  if 0xC2 ≤ b ∧ b ≤ 0xDF then some ⟨1, 0x80, 0xBF, b - 0xC0⟩
  else if b = 0xE0 then some ⟨2, 0xA0, 0xBF, 0⟩
  else if b = 0xED then some ⟨2, 0x80, 0x9F, 0xD⟩
  else if 0xE1 ≤ b ∧ b ≤ 0xEF then some ⟨2, 0x80, 0xBF, b - 0xE0⟩
  else if b = 0xF0 then some ⟨3, 0x90, 0xBF, 0⟩
  else if 0xF1 ≤ b ∧ b ≤ 0xF3 then some ⟨3, 0x80, 0xBF, b - 0xF0⟩
  else if b = 0xF4 then some ⟨3, 0x80, 0x8F, 4⟩
  else none

/-- What a byte between characters gives: a character or what is none, and the character it opens. -/
def start (b : Nat) : List (Option Char) × Option Partial :=
  if b < 0x80 then ([some (Char.ofNat b)], none)
  else
    match opening? b with
    | some p => ([], some p)
    | none => ([none], none)

/-- Reads on with the character that has been opened. -/
def decodeFrom : Option Partial → List Nat → List (Option Char)
  | none, [] => []
  | some _, [] => [none]
  | none, b :: rest => (start b).1 ++ decodeFrom (start b).2 rest
  | some p, b :: rest =>
    if p.low ≤ b ∧ b ≤ p.high then
      if p.missing = 1 then
        some (Char.ofNat (p.bits * 64 + (b - 0x80))) :: decodeFrom none rest
      else decodeFrom (some ⟨p.missing - 1, 0x80, 0xBF, p.bits * 64 + (b - 0x80)⟩) rest
    else none :: (start b).1 ++ decodeFrom (start b).2 rest

/-- The characters of some bytes, and the places of what is none. -/
def decode (bytes : ByteArray) : List (Option Char) :=
  decodeFrom none (bytes.toList.map UInt8.toNat)

/-- The text of some bytes for a reader. -/
def decodeLossy (bytes : ByteArray) : String :=
  String.ofList ((decode bytes).map (·.getD '\ufffd'))

/-- The text of some bytes that are nothing else. -/
def decode? (bytes : ByteArray) : Option String := String.fromUTF8? bytes

end BitcodeReplay.Utf8

namespace BitcodeReplay

/-- Characters below 256. -/
abbrev Octets := List Char

namespace Octets

def ofBytes (bytes : ByteArray) : Octets := bytes.toList.map fun b => Char.ofNat b.toNat

def toBytes (o : Octets) : ByteArray := ⟨(o.map fun c => c.toNat.toUInt8).toArray⟩

def ofText (text : String) : Octets := ofBytes text.toUTF8

/-- The text of some bytes; what is no text in them is replaced. -/
def toText (o : Octets) : String := Utf8.decodeLossy (toBytes o)

/-- Comes before or is the same, by the first byte that differs. -/
def isLe : Octets → Octets → Bool
  | [], _ => true
  | _ :: _, [] => false
  | a :: s, b :: t => if a = b then isLe s t else a.toNat < b.toNat

def ofNat (n : Nat) : Octets := (toString n).toList

/-- The parts that a character ends, without it. What follows the last one is a part unless it is
empty. -/
def endedBy (ending : Char) (o : Octets) : List Octets :=
  match (o.splitOn ending).reverse with
  | [] :: above => above.reverse
  | all => all.reverse

/-- The lines, without the line feeds that end them. -/
def lines (o : Octets) : List Octets := o.endedBy '\n'

end Octets

end BitcodeReplay
