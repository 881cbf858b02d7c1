import BitcodeReplay.Shell.Arithmetic
import BitcodeReplay.Text.Utf8

/-!
Permissions as commands write them: in octal digits, or as clauses that add, take away or set some of
them for the owner, the group and all others.
-/

namespace BitcodeReplay.Shell.Permissions

/-- All permissions, with those that stand above the nine ordinary ones. -/
def all : Nat := 0o7777

def isWho (c : Char) : Bool := ['u', 'g', 'o', 'a'].contains c

/-- What a clause can change for those that a letter names. -/
def scope : Char → Nat
  | 'u' => 0o4700
  | 'g' => 0o2070
  | 'o' => 0o1007
  | _ => all

/-- The permissions in `a` that are not in `b`. -/
def without (a b : Nat) : Nat := a &&& (all ^^^ (b &&& all))

/-- What some letters stand for, seen from the permissions that an entry has. -/
def letters? (isDirectory : Bool) (current : Nat) (text : Octets) : Option Nat :=
  let spread := fun shift : Nat =>
    let bits := (current >>> shift) &&& 7
    bits * 0o111
  match text with
  | ['u'] => some (spread 6)
  | ['g'] => some (spread 3)
  | ['o'] => some (spread 0)
  | _ =>
    text.foldl (fun known c =>
      known.bind fun bits =>
        match c with
        | 'r' => some (bits ||| 0o444)
        | 'w' => some (bits ||| 0o222)
        | 'x' => some (bits ||| 0o111)
        | 'X' => some (if isDirectory || current &&& 0o111 != 0 then bits ||| 0o111 else bits)
        | 's' => some (bits ||| 0o6000)
        | 't' => some (bits ||| 0o1000)
        | _ => none) (some 0)

def isSign (c : Char) : Bool := c == '+' || c == '-' || c == '='

/-- Carries out the changes of a clause behind the letters that say for whom. Where none is named,
what the mask takes away stays as it is. The first argument bounds the number of changes. -/
def changes? (isDirectory : Bool) (who mask : Nat) : Nat → Octets → Nat → Option Nat
  | 0, _, _ => none
  | bound + 1, text, current =>
    match text with
    | [] => some current
    | sign :: rest =>
      if !isSign sign then none
      else
        let written := rest.takeWhile fun c => !isSign c
        let following := rest.drop written.length
        match letters? isDirectory current written with
        | none => none
        | some bits =>
          let value := if who = 0 then without bits mask else bits &&& who
          let scope := if who = 0 then all else who
          let next :=
            match sign with
            | '+' => current ||| value
            | '-' => without current value
            | _ => without current scope ||| value
          changes? isDirectory who mask bound following next

/-- The permissions that a text asks for, seen from those that an entry has. -/
def changed? (isDirectory : Bool) (mask : Nat) (text : Octets) (current : Nat) : Option Nat :=
  if text ≠ [] && text.all (Arithmetic.isDigitIn 8) then
    let n := Arithmetic.digitsValue 8 text
    if n ≤ all then some n else none
  else
    (text.splitOn ',').foldl (fun known clause =>
      known.bind fun current =>
        let names := clause.takeWhile isWho
        let who := names.foldl (fun bits c => bits ||| scope c) 0
        let rest := clause.drop names.length
        if rest = [] then none
        else changes? isDirectory who mask (rest.length + 1) rest current) (some current)

/-- The letters of three permissions. -/
def triple (bits : Nat) : Octets :=
  (if bits &&& 4 != 0 then ['r'] else []) ++ (if bits &&& 2 != 0 then ['w'] else []) ++
    (if bits &&& 1 != 0 then ['x'] else [])

/-- Permissions as clauses that set them. -/
def clauses (bits : Nat) : Octets :=
  ['u', '='] ++ triple (bits >>> 6) ++ [',', 'g', '='] ++ triple (bits >>> 3) ++
    [',', 'o', '='] ++ triple bits

/-- Permissions in at least four octal digits. -/
def octal (bits : Nat) : Octets :=
  let digits := Nat.toDigits 8 bits
  List.replicate (4 - digits.length) '0' ++ digits

end BitcodeReplay.Shell.Permissions
