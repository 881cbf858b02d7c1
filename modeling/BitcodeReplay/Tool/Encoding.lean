import BitcodeReplay.Tool.Basic

/-!
The tools that write bytes in digits of a larger base, and read them back.
-/

namespace BitcodeReplay.Tool

open Shell

namespace Encoding

/-- An encoding: its digits, how many bits one of them stands for, and how many of them make a group,
which stands for whole bytes. -/
structure Scheme where
  digits : List Char
  bits : Nat
  group : Nat
  deriving DecidableEq, Repr

def capitals : List Char := "ABCDEFGHIJKLMNOPQRSTUVWXYZ".toList

def base64 : Scheme :=
  ⟨capitals ++ capitals.map Char.toLower ++ "0123456789+/".toList, 6, 4⟩

def base32 : Scheme := ⟨capitals ++ "234567".toList, 5, 8⟩

namespace Scheme

/-- How many bytes a full group stands for. -/
def bytes (e : Scheme) : Nat := e.bits * e.group / 8

/-- The characters of one group of bytes, which may be short. -/
def encodeGroup (e : Scheme) (bytes : Octets) : Octets :=
  let n := bytes.foldl (fun n c => n * 256 + c.toNat) 0 <<< (8 * (e.bytes - bytes.length))
  let used := (8 * bytes.length + e.bits - 1) / e.bits
  (List.range e.group).map fun i =>
    if i < used then
      (e.digits[(n >>> (e.bits * (e.group - 1 - i))) % (1 <<< e.bits)]?).getD '='
    else '='

/-- The characters of all bytes. The first argument bounds the groups. -/
def encode (e : Scheme) : Nat → Octets → Octets
  | 0, _ => []
  | bound + 1, t =>
    if t = [] then []
    else e.encodeGroup (t.take e.bytes) ++ encode e bound (t.drop e.bytes)

/-- How many digits a group may have in front of the characters that fill it up. -/
def isLength (e : Scheme) (n : Nat) : Bool :=
  n = e.group || 0 < n && (e.bits * n) / 8 != (e.bits * (n - 1)) / 8 && e.bits * n % 8 < e.bits

/-- The bytes of one group, and whether it is well formed. -/
def decodeGroup (e : Scheme) (t : Octets) : Octets × Bool :=
  let values := (t.takeWhile e.digits.contains).map fun c => (e.digits.idxOf? c).getD 0
  let count := values.length
  let n := values.foldl (fun n v => (n <<< e.bits) + v) 0
  let size := e.bits * count / 8
  let kept := n >>> (e.bits * count - 8 * size)
  ((List.range size).map fun i => Char.ofNat ((kept >>> (8 * (size - 1 - i))) % 256),
    t.length = e.group && e.isLength count && (t.drop count).all (· == '='))

/-- The bytes that characters stand for, up to the first group that is not well formed, and whether
all are. The first argument bounds the groups. -/
def decode (e : Scheme) : Nat → Octets → Octets × Bool
  | 0, _ => ([], true)
  | bound + 1, t =>
    if t = [] then ([], true)
    else
      let (bytes, isFine) := e.decodeGroup (t.take e.group)
      if isFine then
        let (rest, isFine) := decode e bound (t.drop e.group)
        (bytes ++ rest, isFine)
      else (bytes, false)

end Scheme

/-- A text in lines of some width; with width zero there are none. The first argument bounds the
lines. -/
def wrapped (width : Nat) : Nat → Octets → Octets
  | 0, _ => []
  | bound + 1, t =>
    if width = 0 then t
    else if t = [] then []
    else t.take width ++ '\n' :: wrapped width bound (t.drop width)

def table : OptionTable :=
  .of "diw:"
    [("decode", "d", .nothing), ("ignore-garbage", "i", .nothing), ("wrap", "w", .required)]

def run (e : Scheme) (words : List Octets) : Act Unit :=
  withOptions table words fun given operands => do
    let width? := (given.all "w").map fun word => (word, decimal? word)
    match width?.find? fun p => p.2.isNone, operands with
    | some (word, _), _ => failOn "invalid wrap size: " word ""
    | none, _ :: extra :: _ => extraOperand extra
    | none, _ =>
      let path := operands.headD ['-']
      match ← contentOf path with
      | .error (.unopened reason) => fail (Quote.ifNeeded path ++ text (": " ++ errorText reason))
      | .error (.unreadable reason) => fail (text ("read error: " ++ reason.message))
      | .ok found =>
        if given.has "d" then
          let kept := found.filter fun c =>
            c != '\n' && (!given.has "i" || c == '=' || e.digits.contains c)
          let (bytes, isFine) := e.decode (kept.length + 1) kept
          Act.put bytes
          if !isFine then fail (text "invalid input")
        else
          let width := (width?.getLast?.bind (·.2)).getD 76
          Act.put (wrapped width (2 * found.length + 1) (e.encode (found.length + 1) found))

end Encoding

def base64 : List Octets → Act Unit := Encoding.run Encoding.base64

def base32 : List Octets → Act Unit := Encoding.run Encoding.base32

end BitcodeReplay.Tool
