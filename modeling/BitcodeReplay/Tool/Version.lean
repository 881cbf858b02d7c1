import BitcodeReplay.Shell.Arithmetic
import BitcodeReplay.Text.Utf8

/-!
The order of versions: texts and numbers in turn, where numbers count by their values.
-/

namespace BitcodeReplay.Tool

open Shell

/-- Compares two texts by their bytes. -/
def compareOctets (a b : Octets) : Ordering :=
  if a = b then .eq else if Octets.isLe a b then .lt else .gt

def compareNat (m n : Nat) : Ordering := if m < n then .lt else if n < m then .gt else .eq

def compareInt (m n : Int) : Ordering := if m < n then .lt else if n < m then .gt else .eq

/-- The order of characters in versions: a tilde comes first, then the end, letters and the others. -/
def versionWeight (c : Option Char) : Int :=
  match c with
  | none => 0
  | some '~' => -1
  | some c =>
    if Text.isDigit c then 0 else if Text.isLetter c then c.toNat else c.toNat + 256

/-- Compares the parts of versions in turn. The first argument bounds their number. -/
def compareVersions : Nat → Octets → Octets → Ordering
  | 0, _, _ => .eq
  | bound + 1, a, b =>
    match a, b with
    | [], [] => .eq
    | _, _ =>
      let textOf := fun w : Octets => w.takeWhile fun c => !Text.isDigit c
      let s := textOf a
      let t := textOf b
      let length := max s.length t.length
      let texts := (List.range length).foldl (fun known i =>
        known.then (compareInt (versionWeight s[i]?) (versionWeight t[i]?))) Ordering.eq
      let m := (a.drop s.length).takeWhile Text.isDigit
      let n := (b.drop t.length).takeWhile Text.isDigit
      texts.then ((compareNat (Arithmetic.digitsValue 10 m) (Arithmetic.digitsValue 10 n)).then
        (compareVersions bound (a.drop (s.length + m.length)) (b.drop (t.length + n.length))))

end BitcodeReplay.Tool
