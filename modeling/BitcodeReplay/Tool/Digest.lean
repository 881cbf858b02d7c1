import BitcodeReplay.Digest
import BitcodeReplay.Tool.Basic

/-!
The tools that write a sum or a digest of what files hold, and those that check files against digests
that were written before.
-/

namespace BitcodeReplay.Tool

open Shell

namespace Digest

open BitcodeReplay.Digest

/-- A digest under the name that stands in front of it in tagged lines. -/
structure Algorithm where
  name : String
  size : Nat
  hash : ByteArray → List UInt8

def md5 : Algorithm := ⟨"MD5", 16, Md5.hash⟩

def sha1 : Algorithm := ⟨"SHA1", 20, Sha1.hash⟩

def sha224 : Algorithm := ⟨"SHA224", 28, Sha2.hash224⟩

def sha256 : Algorithm := ⟨"SHA256", 32, Sha2.hash256⟩

def sha384 : Algorithm := ⟨"SHA384", 48, Sha2.hash384⟩

def sha512 : Algorithm := ⟨"SHA512", 64, Sha2.hash512⟩

def algorithms : List Algorithm := [md5, sha1, sha224, sha256, sha384, sha512]

/-- The digest of some bytes in digits. -/
def Algorithm.digits (a : Algorithm) (t : Octets) : Octets := hexadecimal (a.hash t.toBytes)

/-- A name with escapes for what would end or change a line. -/
def escaped (name : Octets) : Octets :=
  name.flatMap fun c =>
    match c with
    | '\\' => ['\\', '\\']
    | '\n' => ['\\', 'n']
    | '\r' => ['\\', 'r']
    | c => [c]

/-- The name that escapes stand for. -/
def unescaped? : Octets → Option Octets
  | [] => some []
  | '\\' :: '\\' :: rest => (unescaped? rest).map ('\\' :: ·)
  | '\\' :: 'n' :: rest => (unescaped? rest).map ('\n' :: ·)
  | '\\' :: 'r' :: rest => (unescaped? rest).map ('\r' :: ·)
  | '\\' :: _ => none
  | c :: rest => (unescaped? rest).map (c :: ·)

/-- How lines of digests are written. -/
structure Form where
  tagged : Bool
  binary : Bool
  zero : Bool
  deriving DecidableEq, Repr

/-- A line of a digest. -/
def Form.line (f : Form) (a : Algorithm) (name digits : Octets) : Octets :=
  let shown := if f.zero then name else escaped name
  (if shown = name then [] else ['\\']) ++
    (if f.tagged then text a.name ++ text " (" ++ shown ++ text ") = " ++ digits
    else digits ++ [' ', if f.binary then '*' else ' '] ++ shown) ++
    [if f.zero then '\x00' else '\n']

/-- Which form of untagged lines has been seen: none yet, one with a mark in front of names, or one
without. The two are not mixed. -/
inductive Marks where
  | unknown
  | marked
  | bare
  deriving DecidableEq, Repr

/-- What a line asks to check. -/
structure Entry where
  algorithm : Algorithm
  digits : Octets
  name : Octets

def isHexadecimal (t : Octets) : Bool := t.all (Text.inClass "xdigit")

/-- What a tagged line asks to check, behind the name of its algorithm. -/
def taggedLine? (a : Algorithm) (isEscaped : Bool) (rest : Octets) : Option Entry :=
  let rest := if rest.head? = some ' ' then rest.drop 1 else rest
  match rest with
  | '(' :: rest =>
    let behind := (rest.reverse.takeWhile (· != ')')).reverse
    let name := rest.take (rest.length - behind.length - 1)
    let blank := fun c => c == ' ' || c == '\t'
    match behind.dropWhile blank with
    | '=' :: digits =>
      let digits := digits.dropWhile blank
      if behind.length = rest.length || digits.length != 2 * a.size || !isHexadecimal digits then none
      else ((if isEscaped then unescaped? name else some name)).map fun name => ⟨a, digits, name⟩
    | _ => none
  | _ => none

/-- What a line asks to check. -/
def lineRequest? (known : List Algorithm) (tagOnly : Bool) (marks : Marks) (line : Octets) :
    Option (Entry × Marks) :=
  let line := line.dropWhile fun c => c == ' ' || c == '\t'
  let isEscaped := line.head? = some '\\'
  let line := if isEscaped then line.drop 1 else line
  match known.find? fun a => (text a.name).isPrefixOf line &&
      (line.drop a.name.length).head?.any fun c => c == ' ' || c == '(' with
  | some a => (taggedLine? a isEscaped (line.drop a.name.length)).map fun e => (e, marks)
  | none =>
    match tagOnly, known with
    | false, a :: _ =>
      let digits := line.take (2 * a.size)
      match line.drop (2 * a.size) with
      | c :: rest =>
        if !isHexadecimal digits || !(c == ' ' || c == '\t') then none
        else
          let name := fun t => if isEscaped then unescaped? t else some t
          let isBare := rest.length ≤ 1 || !(rest.head?.any fun c => c == ' ' || c == '*')
          if isBare && marks = .marked || rest = [] then none
          else if isBare || marks = .bare then (name rest).map fun n => (⟨a, digits, n⟩, .bare)
          else (name (rest.drop 1)).map fun n => (⟨a, digits, n⟩, .marked)
      | [] => none
    | _, _ => none

/-- How checks are told. -/
structure Telling where
  status : Bool
  quiet : Bool
  warn : Bool
  strict : Bool
  ignoresMissing : Bool
  deriving DecidableEq, Repr

/-- What has come of the lines of a file. -/
structure Tally where
  marks : Marks
  proper : Nat
  improper : Nat
  unread : Nat
  different : Nat
  matched : Nat
  deriving DecidableEq, Repr

def shownName (name : Octets) : Octets :=
  if name.contains '\n' || name.contains '\r' then '\\' :: escaped name else name

/-- Checks what one line asks for. -/
def checkEntry (f : Telling) (e : Entry) (t : Tally) : Act Tally := do
  let t := { t with proper := t.proper + 1 }
  match ← contentOf e.name with
  | .error (.unopened .notFound) =>
    if f.ignoresMissing then return t
    say (Quote.ifNeeded e.name ++ text (": " ++ errorText .notFound))
    if !f.status then Act.putLine (shownName e.name ++ text ": FAILED open or read")
    return { t with unread := t.unread + 1 }
  | .error failure =>
    say (Quote.ifNeeded e.name ++ text (": " ++ failure.reason))
    if !f.status then Act.putLine (shownName e.name ++ text ": FAILED open or read")
    return { t with unread := t.unread + 1 }
  | .ok found =>
    if e.algorithm.digits found = e.digits.map Char.toLower then
      if !f.status && !f.quiet then Act.putLine (shownName e.name ++ text ": OK")
      return { t with matched := t.matched + 1 }
    else
      if !f.status then Act.putLine (shownName e.name ++ text ": FAILED")
      return { t with different := t.different + 1 }

/-- A warning of a count, if it is not zero. -/
def warnOf (n : Nat) (one many : String) : Act Unit := do
  if n != 0 then
    say (text ("WARNING: " ++ toString n ++ " " ++ if n = 1 then one else many))

/-- Checks what the lines of a file ask for. -/
def checkFile (known : List Algorithm) (tagOnly : Bool) (f : Telling) (path : Octets) :
    Act Unit := do
  let shown := if path = ['-'] then text "standard input" else path
  match ← contentOf path with
  | .error e => fail (Quote.ifNeeded shown ++ text (": " ++ e.reason))
  | .ok found =>
    let mut t : Tally := ⟨.unknown, 0, 0, 0, 0, 0⟩
    for (line, i) in found.lines.zipIdx do
      let line := if line.getLast? = some '\r' then line.dropLast else line
      if line != [] && line.head? != some '#' then
        match lineRequest? known tagOnly t.marks line with
        | some (e, marks) => t ← checkEntry f e { t with marks := marks }
        | none =>
          if f.warn then
            say (Quote.ifNeeded shown ++ text (": " ++ toString (i + 1) ++ ": improperly formatted " ++
              (if tagOnly then "" else (known.head?).elim "" (·.name ++ " ")) ++ "checksum line"))
          t := { t with improper := t.improper + 1 }
    if t.proper = 0 then
      fail (Quote.ifNeeded shown ++ text ": no properly formatted checksum lines found")
    else
      if !f.status then
        warnOf t.improper "line is improperly formatted" "lines are improperly formatted"
        warnOf t.unread "listed file could not be read" "listed files could not be read"
        warnOf t.different "computed checksum did NOT match" "computed checksums did NOT match"
        if f.ignoresMissing && t.matched = 0 then
          say (Quote.ifNeeded shown ++ text ": no file was verified")
      if t.unread != 0 || t.different != 0 || f.strict && t.improper != 0 ||
          f.ignoresMissing && t.matched = 0 then
        Act.setStatus 1

def names : List (String × String × Need) :=
  [("check", "c", .nothing), ("ignore-missing", "ignore-missing", .nothing),
    ("quiet", "quiet", .nothing), ("status", "status", .nothing), ("warn", "w", .nothing),
    ("strict", "strict", .nothing), ("tag", "tag", .nothing), ("zero", "z", .nothing)]

def table : OptionTable :=
  .of "bctwz" (names ++ [("binary", "b", .nothing), ("text", "t", .nothing)])

/-- Options that make sense only when digests are checked. -/
def checkOnly : List String := ["ignore-missing", "status", "w", "quiet", "strict"]

/-- The name that a message has for an option. -/
def fullName (key : String) : String := if key = "w" then "warn" else key

/-- What is wrong with options taken together. -/
def conflict? (given : Given) : Option String :=
  let checks := given.has "c"
  if checks && given.has "tag" then
    some "the --tag option is meaningless when verifying checksums"
  else if checks && given.has "z" then
    some "the --zero option is not supported when verifying checksums"
  else if checks && (given.has "b" || given.has "t") then
    some "the --binary and --text options are meaningless when verifying checksums"
  else if checks then none
  else (checkOnly.find? given.has).map fun key =>
    "the --" ++ fullName key ++ " option is meaningful only when verifying checksums"

def tellingOf (given : Given) : Telling :=
  ⟨given.has "status", given.has "quiet", given.has "w", given.has "strict",
    given.has "ignore-missing"⟩

/-- Writes the digests of files, or checks files. -/
def run (a : Algorithm) (words : List Octets) : Act Unit :=
  withOptions table words fun given operands => do
    match conflict? given with
    | some message => misused 1 (text message)
    | none =>
      for path in orInput operands do
        if given.has "c" then checkFile [a] false (tellingOf given) path
        else
          match ← content? path with
          | none => pure ()
          | some found =>
            let form : Form := ⟨given.has "tag", given.lastOf? ["b", "t"] = some "b", given.has "z"⟩
            Act.put (form.line a path (a.digits found))

/-- A number of blocks of some size that hold so many bytes. -/
def blocks (size length : Nat) : Nat := (length + size - 1) / size

/-- A sum over a text with its length. -/
def legacy (algorithm : String) (t : Octets) : Octets :=
  let digits := fun n : Nat => Octets.ofNat n
  match algorithm with
  | "bsd" =>
    let sum := digits (Checksum.turning t.toBytes)
    List.replicate (5 - sum.length) '0' ++ sum ++ [' '] ++
      rightAligned 5 (digits (blocks 1024 t.length))
  | "sysv" => digits (Checksum.folded t.toBytes) ++ [' '] ++ digits (blocks 512 t.length)
  | _ => digits (Checksum.cyclic t.toBytes) ++ [' '] ++ digits t.length

/-- Writes sums over files. -/
def runLegacy (algorithm : String) (zero : Bool) (operands : List Octets) : Act Unit := do
  for path in orInput operands do
    match ← content? path with
    | none => pure ()
    | some found =>
      Act.put (legacy algorithm found ++ (if operands = [] then [] else ' ' :: path) ++
        [if zero then '\x00' else '\n'])

def sumTable : OptionTable :=
  .of "rs" [("sysv", "s", .nothing)]

def cksumTable : OptionTable :=
  .of "a:cl:wz" (names ++ [("algorithm", "a", .required), ("length", "l", .required),
    ("untagged", "untagged", .nothing), ("debug", "debug", .nothing)])

/-- The names of what `cksum` can write. -/
def legacyNames : List String := ["bsd", "sysv", "crc"]

def badAlgorithm (word : Octets) : Act Unit := do
  say (text "invalid argument " ++ Quote.always word ++ text " for '--algorithm'")
  let known := legacyNames ++ algorithms.map (fun a => a.name.toLower) ++ ["blake2b", "sm3"]
  modify fun s => s.report (text "Valid arguments are:\n" ++
    known.flatMap fun name => text ("  - '" ++ name ++ "'\n"))
  hint 1

end Digest

def md5sum : List Octets → Act Unit := Digest.run Digest.md5

def sha1sum : List Octets → Act Unit := Digest.run Digest.sha1

def sha224sum : List Octets → Act Unit := Digest.run Digest.sha224

def sha256sum : List Octets → Act Unit := Digest.run Digest.sha256

def sha384sum : List Octets → Act Unit := Digest.run Digest.sha384

def sha512sum : List Octets → Act Unit := Digest.run Digest.sha512

def sum (words : List Octets) : Act Unit :=
  withOptions Digest.sumTable words fun given operands =>
    Digest.runLegacy (if given.lastOf? ["r", "s"] = some "s" then "sysv" else "bsd") false operands

def cksum (words : List Octets) : Act Unit :=
  withOptions Digest.cksumTable words fun given operands => do
    let asked := ((given.last? "a").map Octets.toText)
    match asked.bind fun name => Digest.algorithms.find? fun a => a.name.toLower == name with
    | some a =>
      if given.has "c" then
        for path in orInput operands do
          Digest.checkFile [a] false (Digest.tellingOf given) path
      else
        for path in orInput operands do
          match ← content? path with
          | none => pure ()
          | some found =>
            let form : Digest.Form := ⟨!given.has "untagged", false, given.has "z"⟩
            Act.put (form.line a path (a.digits found))
    | none =>
      if asked.any fun name => !Digest.legacyNames.contains name then
        Digest.badAlgorithm ((given.last? "a").getD [])
      else if given.has "c" then
        if asked.isSome then
          fail (text "--check is not supported with --algorithm=\x7bbsd,sysv,crc\x7d")
        else
          for path in orInput operands do
            Digest.checkFile Digest.algorithms true (Digest.tellingOf given) path
      else Digest.runLegacy (asked.getD "crc") (given.has "z") operands

end BitcodeReplay.Tool
