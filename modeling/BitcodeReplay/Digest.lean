/-!
What the tools that sum up files compute of a message.
-/

/-! ### Blocks

Messages as the digests of the same family read them: in blocks of words, behind a bit that marks
the end, zeros, and the length.
-/

namespace BitcodeReplay.Digest

/-- How bytes stand in a word. -/
inductive ByteOrder where
  | lowFirst
  | highFirst
  deriving DecidableEq, Repr

/-- The bytes of a number, so many, in an order. -/
def bytesOf (order : ByteOrder) (count n : Nat) : List UInt8 :=
  let low := (List.range count).map fun i => (n >>> (8 * i)).toUInt8
  match order with
  | .lowFirst => low
  | .highFirst => low.reverse

/-- The number that bytes stand for. -/
def numberOf (order : ByteOrder) (bytes : List UInt8) : Nat :=
  let value := fun bytes : List UInt8 => bytes.foldl (fun n b => n * 256 + b.toNat) 0
  match order with
  | .lowFirst => value bytes.reverse
  | .highFirst => value bytes

/-- A message with what stands behind it: the mark, zeros, and its length in bits, which takes so many
bytes. The whole is a number of blocks. -/
def padded (order : ByteOrder) (block lengthSize : Nat) (message : ByteArray) : ByteArray :=
  let used := (message.size + 1 + lengthSize) % block
  let zeros := if used = 0 then 0 else block - used
  message ++ ⟨((0x80 :: List.replicate zeros 0) ++
    bytesOf order lengthSize (8 * message.size)).toArray⟩

/-- The word of a message at a place. -/
def wordAt (order : ByteOrder) (size : Nat) (message : ByteArray) (place : Nat) : Nat :=
  numberOf order (message.extract place (place + size)).toList

/-- The words of one block. -/
def blockWords (order : ByteOrder) (size : Nat) (message : ByteArray) (start : Nat) : List Nat :=
  (List.range 16).map fun i => wordAt order size message (start + i * size)

/-- A number in hexadecimal digits, as many as its bytes have. -/
def hexadecimal (bytes : List UInt8) : List Char :=
  bytes.flatMap fun b => [Nat.digitChar (b.toNat / 16), Nat.digitChar (b.toNat % 16)]

end BitcodeReplay.Digest

/-! ### Checksums

Short sums over files, which find accidents and no intent.
-/

namespace BitcodeReplay.Digest.Checksum

/-- The remainder of a polynomial after one more byte. -/
def addByte (crc : UInt32) (byte : UInt8) : UInt32 :=
  (List.range 8).foldl
    (fun crc _ => if crc &&& 0x80000000 != 0 then (crc <<< 1) ^^^ 0x04c11db7 else crc <<< 1)
    (crc ^^^ (byte.toUInt32 <<< 24))

/-- The bytes of a length, the lowest first, without zeros at the end. The first argument bounds how
many they are. -/
def lengthBytes : Nat → Nat → List UInt8
  | 0, _ => []
  | bound + 1, n => if n = 0 then [] else n.toUInt8 :: lengthBytes bound (n / 256)

/-- The cyclic redundancy check of a message and its length. -/
def cyclic (message : ByteArray) : Nat :=
  (~~~((lengthBytes 16 message.size).foldl addByte (message.foldl addByte 0))).toNat

/-- A sum of 16 bits that is turned by one before each byte. -/
def turning (message : ByteArray) : Nat :=
  message.foldl (fun (sum : Nat) b => (sum / 2 + sum % 2 * 32768 + b.toNat) % 65536) 0

/-- The sum of all bytes, folded into 16 bits. -/
def folded (message : ByteArray) : Nat :=
  let sum := message.foldl (fun (sum : Nat) b => sum + b.toNat) 0 % 4294967296
  let once := sum % 65536 + sum / 65536
  once % 65536 + once / 65536

end BitcodeReplay.Digest.Checksum

/-! ### MD5

The digest of 128 bits whose rounds add the sines of whole numbers.
-/

namespace BitcodeReplay.Digest.Md5

/-- The sines of the numbers from one on, without sign, in parts of the range of a word. -/
def sines : Array UInt32 := #[
  0xd76aa478, 0xe8c7b756, 0x242070db, 0xc1bdceee, 0xf57c0faf, 0x4787c62a, 0xa8304613, 0xfd469501,
  0x698098d8, 0x8b44f7af, 0xffff5bb1, 0x895cd7be, 0x6b901122, 0xfd987193, 0xa679438e, 0x49b40821,
  0xf61e2562, 0xc040b340, 0x265e5a51, 0xe9b6c7aa, 0xd62f105d, 0x02441453, 0xd8a1e681, 0xe7d3fbc8,
  0x21e1cde6, 0xc33707d6, 0xf4d50d87, 0x455a14ed, 0xa9e3e905, 0xfcefa3f8, 0x676f02d9, 0x8d2a4c8a,
  0xfffa3942, 0x8771f681, 0x6d9d6122, 0xfde5380c, 0xa4beea44, 0x4bdecfa9, 0xf6bb4b60, 0xbebfbc70,
  0x289b7ec6, 0xeaa127fa, 0xd4ef3085, 0x04881d05, 0xd9d4d039, 0xe6db99e5, 0x1fa27cf8, 0xc4ac5665,
  0xf4292244, 0x432aff97, 0xab9423a7, 0xfc93a039, 0x655b59c3, 0x8f0ccc92, 0xffeff47d, 0x85845dd1,
  0x6fa87e4f, 0xfe2ce6e0, 0xa3014314, 0x4e0811a1, 0xf7537e82, 0xbd3af235, 0x2ad7d2bb, 0xeb86d391]

/-- How far words are turned in each round. -/
def turns : Array Nat := #[7, 12, 17, 22, 5, 9, 14, 20, 4, 11, 16, 23, 6, 10, 15, 21]

structure State where
  a : UInt32
  b : UInt32
  c : UInt32
  d : UInt32

def start : State := ⟨0x67452301, 0xefcdab89, 0x98badcfe, 0x10325476⟩

def rotate (x : UInt32) (n : Nat) : UInt32 :=
  (x <<< n.toUInt32) ||| (x >>> (32 - n).toUInt32)

/-- One of the 64 steps of a block. -/
def step (words : Array UInt32) (s : State) (i : Nat) : State :=
  let (mixed, place) :=
    match i / 16 with
    | 0 => ((s.b &&& s.c) ||| (~~~s.b &&& s.d), i)
    | 1 => ((s.d &&& s.b) ||| (~~~s.d &&& s.c), 5 * i + 1)
    | 2 => (s.b ^^^ s.c ^^^ s.d, 3 * i + 5)
    | _ => (s.c ^^^ (s.b ||| ~~~s.d), 7 * i)
  let sum := mixed + s.a + (sines[i]?).getD 0 + (words[place % 16]?).getD 0
  ⟨s.d, s.b + rotate sum ((turns[i / 16 * 4 + i % 4]?).getD 0), s.b, s.c⟩

def compress (s : State) (words : Array UInt32) : State :=
  let t := (List.range 64).foldl (step words) s
  ⟨s.a + t.a, s.b + t.b, s.c + t.c, s.d + t.d⟩

/-- The digest of a message. -/
def hash (message : ByteArray) : List UInt8 :=
  let text := padded .lowFirst 64 8 message
  let s := (List.range (text.size / 64)).foldl
    (fun s i => compress s ((blockWords .lowFirst 4 text (64 * i)).map (·.toUInt32)).toArray) start
  [s.a, s.b, s.c, s.d].flatMap fun x => bytesOf .lowFirst 4 x.toNat

end BitcodeReplay.Digest.Md5

/-! ### SHA-1

The digest of 160 bits of the first of the secure hash algorithms.
-/

namespace BitcodeReplay.Digest.Sha1

structure State where
  a : UInt32
  b : UInt32
  c : UInt32
  d : UInt32
  e : UInt32

def start : State := ⟨0x67452301, 0xefcdab89, 0x98badcfe, 0x10325476, 0xc3d2e1f0⟩

def rotate (x : UInt32) (n : UInt32) : UInt32 := (x <<< n) ||| (x >>> (32 - n))

/-- The words of a block, and those that follow from them. -/
def schedule (words : List Nat) : Array UInt32 :=
  (List.range 64).foldl
    (fun (all : Array UInt32) i =>
      let back := fun n => (all[i + 16 - n]?).getD 0
      all.push (rotate (back 3 ^^^ back 8 ^^^ back 14 ^^^ back 16) 1))
    (words.map (·.toUInt32)).toArray

/-- One of the 80 steps of a block. -/
def step (words : Array UInt32) (s : State) (i : Nat) : State :=
  let (mixed, constant) : UInt32 × UInt32 :=
    match i / 20 with
    | 0 => ((s.b &&& s.c) ||| (~~~s.b &&& s.d), 0x5a827999)
    | 1 => (s.b ^^^ s.c ^^^ s.d, 0x6ed9eba1)
    | 2 => ((s.b &&& s.c) ||| (s.b &&& s.d) ||| (s.c &&& s.d), 0x8f1bbcdc)
    | _ => (s.b ^^^ s.c ^^^ s.d, 0xca62c1d6)
  ⟨rotate s.a 5 + mixed + s.e + constant + (words[i]?).getD 0, s.a, rotate s.b 30, s.c, s.d⟩

def compress (s : State) (words : List Nat) : State :=
  let t := (List.range 80).foldl (step (schedule words)) s
  ⟨s.a + t.a, s.b + t.b, s.c + t.c, s.d + t.d, s.e + t.e⟩

/-- The digest of a message. -/
def hash (message : ByteArray) : List UInt8 :=
  let text := padded .highFirst 64 8 message
  let s := (List.range (text.size / 64)).foldl
    (fun s i => compress s (blockWords .highFirst 4 text (64 * i))) start
  [s.a, s.b, s.c, s.d, s.e].flatMap fun x => bytesOf .highFirst 4 x.toNat

end BitcodeReplay.Digest.Sha1

/-! ### SHA-2

The digests of the second family of secure hash algorithms. They differ in the size of their words, in
the words they start from, and in how many words of the result they keep. Their constants are the
first bits behind the point of the roots of prime numbers.
-/

namespace BitcodeReplay.Digest.Sha2

/-- The first primes, as many as the longest of these digests has rounds. -/
def primes : List Nat :=
  (List.range 410).filter fun n => 1 < n && (List.range n).all fun d => d < 2 || n % d != 0

/-- The largest number whose power is at most another, found by halves below a power of two. -/
def root (power n : Nat) : Nat → Nat → Nat
  | 0, found => found
  | bits + 1, found =>
    let next := found + (1 <<< bits)
    root power n bits (if Nat.pow next power ≤ n then next else found)

/-- So many bits behind the point of the root of a number. -/
def rootBits (power bits n : Nat) : Nat :=
  root power (n <<< (power * bits)) (bits + 6) 0 % (1 <<< bits)

/-- How the words of a digest are mixed: by how much they are turned, or shifted at the end of each
list in a schedule. -/
structure Shape where
  bits : Nat
  rounds : Nat
  first : List Nat
  second : List Nat
  older : List Nat
  newer : List Nat

def shape32 : Shape := ⟨32, 64, [2, 13, 22], [6, 11, 25], [7, 18, 3], [17, 19, 10]⟩

def shape64 : Shape := ⟨64, 80, [28, 34, 39], [14, 18, 41], [1, 8, 7], [19, 61, 6]⟩

namespace Shape

def wrap (f : Shape) (n : Nat) : Nat := n % (1 <<< f.bits)

def rotate (f : Shape) (x n : Nat) : Nat := f.wrap ((x >>> n) ||| (x <<< (f.bits - n)))

/-- A word turned by each of some amounts, all put together. -/
def turned (f : Shape) (amounts : List Nat) (x : Nat) : Nat :=
  amounts.foldl (fun r n => r ^^^ f.rotate x n) 0

/-- A word turned by some amounts and shifted by the last. -/
def shifted (f : Shape) (amounts : List Nat) (x : Nat) : Nat :=
  f.turned amounts.dropLast x ^^^ (x >>> amounts.getLastD 0)

def complement (f : Shape) (x : Nat) : Nat := (1 <<< f.bits) - 1 - x

/-- The words of a block, and those that follow from them. -/
def schedule (f : Shape) (words : List Nat) : Array Nat :=
  (List.range (f.rounds - 16)).foldl
    (fun (all : Array Nat) i =>
      let back := fun n => (all[i + 16 - n]?).getD 0
      all.push (f.wrap (f.shifted f.newer (back 2) + back 7 + f.shifted f.older (back 15) + back 16)))
    words.toArray

/-- One step of a block, on eight words. -/
def step (f : Shape) (constants words : Array Nat) (s : List Nat) (i : Nat) : List Nat :=
  match s with
  | [a, b, c, d, e, g, h, k] =>
    let choice := (e &&& g) ^^^ (f.complement e &&& h)
    let majority := (a &&& b) ^^^ (a &&& c) ^^^ (b &&& c)
    let sum := k + f.turned f.second e + choice + (constants[i]?).getD 0 + (words[i]?).getD 0
    [f.wrap (sum + f.turned f.first a + majority), a, b, c, f.wrap (d + sum), e, g, h]
  | other => other

def compress (f : Shape) (constants : Array Nat) (s : List Nat) (words : List Nat) : List Nat :=
  let t := (List.range f.rounds).foldl (f.step constants (f.schedule words)) s
  List.zipWith (fun x y => f.wrap (x + y)) s t

/-- The digest of a message, from some words on. -/
def hash (f : Shape) (start : List Nat) (kept : Nat) (message : ByteArray) : List UInt8 :=
  let constants := ((primes.take f.rounds).map (rootBits 3 f.bits)).toArray
  let size := f.bits / 8
  let text := padded .highFirst (16 * size) (2 * size) message
  let s := (List.range (text.size / (16 * size))).foldl
    (fun s i => f.compress constants s (blockWords .highFirst size text (16 * size * i))) start
  (s.flatMap (bytesOf .highFirst size)).take kept

end Shape

def early : List Nat := primes.take 8

def late : List Nat := (primes.drop 8).take 8

def hash256 : ByteArray → List UInt8 := shape32.hash (early.map (rootBits 2 32)) 32

def hash224 : ByteArray → List UInt8 :=
  shape32.hash (late.map fun p => rootBits 2 64 p % (1 <<< 32)) 28

def hash512 : ByteArray → List UInt8 := shape64.hash (early.map (rootBits 2 64)) 64

def hash384 : ByteArray → List UInt8 := shape64.hash (late.map (rootBits 2 64)) 48

end BitcodeReplay.Digest.Sha2
