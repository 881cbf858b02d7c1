import BitcodeReplay.Tool.Basic

/-!
The tool that shows what files hold in numbers or characters, so many bytes in a row.
-/

namespace BitcodeReplay.Tool

open Shell

namespace Dump

/-- What the bytes of a field are shown as. -/
inductive Kind where
  | names
  | characters
  | decimal
  | unsigned
  | octal
  | hexadecimal
  deriving DecidableEq, Repr

/-- How rows are shown: as fields of some bytes each, with the characters behind them if `trails`. -/
structure Form where
  kind : Kind
  size : Nat
  trails : Bool
  deriving DecidableEq, Repr

/-- How wide a field is. -/
def Form.width (f : Form) : Nat :=
  let digits := fun (one two four eight : Nat) =>
    if f.size = 1 then one else if f.size = 2 then two else if f.size = 4 then four else eight
  match f.kind with
  | .names | .characters => 3
  | .decimal => digits 4 6 11 20
  | .unsigned => digits 3 5 10 20
  | .octal => digits 3 6 11 22
  | .hexadecimal => digits 2 4 8 16

def controlNames : List String :=
  ["nul", "soh", "stx", "etx", "eot", "enq", "ack", "bel", "bs", "ht", "nl", "vt", "ff", "cr", "so",
    "si", "dle", "dc1", "dc2", "dc3", "dc4", "nak", "syn", "etb", "can", "em", "sub", "esc", "fs",
    "gs", "rs", "us", "sp"]

def octalByte (n : Nat) : Octets :=
  [n / 64, n / 8 % 8, n % 8].map fun d => Char.ofNat ('0'.toNat + d)

def character (c : Char) : Octets :=
  match c with
  | '\x00' => ['\\', '0']
  | '\x07' => ['\\', 'a']
  | '\x08' => ['\\', 'b']
  | '\x0c' => ['\\', 'f']
  | '\n' => ['\\', 'n']
  | '\r' => ['\\', 'r']
  | '\t' => ['\\', 't']
  | '\x0b' => ['\\', 'v']
  | _ => if Text.inClass "print" c then [c] else octalByte c.toNat

/-- The number that bytes stand for, the lowest first. -/
def numberOf (bytes : Octets) : Nat := bytes.foldr (fun c n => n * 256 + c.toNat) 0

/-- A field without what stands before it. -/
def Form.field (f : Form) (bytes : Octets) : Octets :=
  let n := numberOf bytes
  let filled := fun digits : List Char => List.replicate (f.width - digits.length) '0' ++ digits
  match f.kind with
  | .names =>
    let low := n % 128
    if low = 127 then text "del"
    else (controlNames[low]?).elim [Char.ofNat low] text
  | .characters => character (Char.ofNat n)
  | .decimal =>
    let bound := Nat.pow 256 f.size
    text (toString (if 2 * n < bound then (n : Int) else (n : Int) - bound))
  | .unsigned => Octets.ofNat n
  | .octal => filled (Nat.toDigits 8 n)
  | .hexadecimal => filled (Nat.toDigits 16 n)

/-- The bytes of a row in fields. The first argument bounds their number. -/
def inFields (size : Nat) : Nat → Octets → List Octets
  | 0, _ => []
  | bound + 1, bytes =>
    if bytes = [] then [] else bytes.take size :: inFields size bound (bytes.drop size)

/-- Fields of a row behind the space that is left over, which is shared out among all that it could
hold; `count` is how many those are, and `left` the space that has not been used. -/
def spread (f : Form) (count space : Nat) : Nat → Nat → List Octets → Octets
  | _, _, [] => []
  | i, left, bytes :: rest =>
    let next := space * (i - 1) / count
    let shown := f.field bytes
    let width := left - next + f.width + 1
    List.replicate (width - shown.length) ' ' ++ shown ++ spread f count space (i - 1) next rest

/-- A row in a form; all forms together take up so many columns. -/
def Form.row (f : Form) (perRow columns : Nat) (bytes : Octets) : Octets :=
  let count := perRow / f.size
  let space := columns - count * (f.width + 1)
  let body := spread f count space count space (inFields f.size (bytes.length + 1) bytes)
  if f.trails then
    body ++ List.replicate (columns - body.length) ' ' ++ text "  >" ++
      bytes.map (fun c => if Text.inClass "print" c then c else '.') ++ ['<']
  else body

/-- How addresses are shown; not at all with base zero. -/
structure Addresses where
  base : Nat
  width : Nat
  deriving DecidableEq, Repr

def Addresses.write (a : Addresses) (n : Nat) : Octets :=
  if a.base = 0 then []
  else
    let digits := Nat.toDigits a.base n
    List.replicate (a.width - digits.length) '0' ++ digits

/-- The rows of a text from an address on. The first argument bounds their number. Rows that repeat the
one before are left out, unless all are asked for. -/
def rows (forms : List Form) (a : Addresses) (perRow : Nat) (all : Bool) :
    Nat → Nat → Option Octets → Bool → Octets → Octets
  | 0, _, _, _, _ => []
  | bound + 1, address, before, starred, t =>
    if t = [] then (if a.base = 0 then [] else a.write address ++ ['\n'])
    else
      let bytes := t.take perRow
      let go := rows forms a perRow all bound (address + bytes.length) (some bytes)
      if !all && before = some bytes && bytes.length = perRow then
        (if starred then [] else ['*', '\n']) ++ go true (t.drop perRow)
      else
        let columns := forms.foldl (fun n f => max n (perRow / f.size * (f.width + 1))) 0
        let shown := forms.zipIdx.flatMap fun (f, i) =>
          (if i = 0 then a.write address else List.replicate a.width ' ') ++
            f.row perRow columns bytes ++ ['\n']
        shown ++ go false (t.drop perRow)

/-- The size that a type names. -/
def sizeOf? (t : Octets) : Option (Nat × Octets) :=
  let digits := t.takeWhile Text.isDigit
  match t with
  | 'C' :: rest => some (1, rest)
  | 'S' :: rest => some (2, rest)
  | 'I' :: rest => some (4, rest)
  | 'L' :: rest => some (8, rest)
  | _ =>
    if digits = [] then some (4, t)
    else
      match decimal? digits with
      | some n => if [1, 2, 4, 8].contains n then some (n, t.drop digits.length) else none
      | none => none

/-- The forms that a text of types asks for. The first argument bounds their number. -/
def formsOf (whole : Octets) : Nat → Octets → Except Octets (List Form)
  | 0, _ => .ok []
  | bound + 1, t =>
    match t with
    | [] => .ok []
    | c :: rest =>
      let finish := fun (kind : Kind) (size : Nat) (rest : Octets) =>
        let trails := rest.head? = some 'z'
        (formsOf whole bound (if trails then rest.drop 1 else rest)).map (⟨kind, size, trails⟩ :: ·)
      let sized := fun kind : Kind =>
        match sizeOf? rest with
        | some (size, rest) => finish kind size rest
        | none => .error (text "invalid type string " ++ Quote.always whole ++
            text "; this system doesn't provide a " ++ rest.takeWhile Text.isDigit ++
            text "-byte integral type")
      match c with
      | 'a' => finish .names 1 rest
      | 'c' => finish .characters 1 rest
      | 'd' => sized .decimal
      | 'u' => sized .unsigned
      | 'o' => sized .octal
      | 'x' => sized .hexadecimal
      | _ => .error (text "invalid character '" ++ [c] ++ text "' in type string " ++
          Quote.always whole)

/-- The form that a letter of its own asks for. -/
def shorthand? : String → Option Form
  | "a" => some ⟨.names, 1, false⟩
  | "b" => some ⟨.octal, 1, false⟩
  | "c" => some ⟨.characters, 1, false⟩
  | "d" => some ⟨.unsigned, 2, false⟩
  | "i" => some ⟨.decimal, 4, false⟩
  | "l" => some ⟨.decimal, 8, false⟩
  | "o" => some ⟨.octal, 2, false⟩
  | "s" => some ⟨.decimal, 2, false⟩
  | "h" | "x" => some ⟨.hexadecimal, 2, false⟩
  | "B" => some ⟨.octal, 2, false⟩
  | "D" => some ⟨.unsigned, 4, false⟩
  | "O" => some ⟨.octal, 4, false⟩
  | "H" | "X" => some ⟨.hexadecimal, 4, false⟩
  | _ => none

def table : OptionTable :=
  .of "A:N:S::j:t:vw::abcdefhiloxsBDFHIOLX"
    [("address-radix", "A", .required), ("format", "t", .required), ("skip-bytes", "j", .required),
      ("read-bytes", "N", .required), ("output-duplicates", "v", .nothing),
      ("width", "w", .optional), ("strings", "S", .optional)]

/-- All forms that the options ask for. -/
def formsGiven (given : Given) : Except Octets (List Form) := do
  let found ← given.mapM fun (key, argument) =>
    match shorthand? key with
    | some f => .ok [f]
    | none => if key = "t" then formsOf argument (argument.length + 1) argument else .ok []
  return if found.flatten = [] then [⟨.octal, 2, false⟩] else found.flatten

end Dump

def od (words : List Octets) : Act Unit :=
  withOptions Dump.table words fun given operands => do
    match Dump.formsGiven given with
    | .error message => fail message
    | .ok forms =>
      let radix := (given.last? "A").getD ['o']
      let addresses? : Option Dump.Addresses := match radix with
        | 'o' :: _ => some ⟨8, 7⟩
        | 'd' :: _ => some ⟨10, 7⟩
        | 'x' :: _ => some ⟨16, 6⟩
        | 'n' :: _ => some ⟨0, 0⟩
        | _ => none
      match addresses? with
      | none =>
        fail (text "invalid output address radix " ++ Quote.always radix ++
          text "; it must be one character from [doxn]")
      | some addresses =>
        let largest := forms.foldl (fun n f => max n f.size) 1
        let perRow := match given.last? "w" with
          | none => 16
          | some [] => 32
          | some w => (decimal? w).getD 16
        let perRow := if perRow % largest == 0 && perRow != 0 then perRow else largest
        let skipped := ((given.last? "j").bind decimal?).getD 0
        let found ← contents operands
        if found.length < skipped then fail (text "cannot skip past end of combined input")
        else
          let t := found.drop skipped
          let t := match (given.last? "N").bind decimal? with
            | some n => t.take n
            | none => t
          Act.put (Dump.rows forms addresses perRow (given.has "v") (t.length + 1) skipped none false t)

end BitcodeReplay.Tool
