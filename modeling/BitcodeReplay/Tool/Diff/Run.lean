import BitcodeReplay.Shell.Pattern
import BitcodeReplay.Text.RegexSyntax
import BitcodeReplay.Tool.Compare
import BitcodeReplay.Tool.Diff.Layout

/-!
The tool that compares files line by line, and directories file by file.
-/

namespace BitcodeReplay.Tool

open Shell

namespace Diff

/-- What is compared, and how differences are told. With `brief`, only that there are some; with
`fillsIn`, a file that is not there counts as an empty one. `switches` are the options as they were
given. -/
structure Task where
  manner : Manner
  likeness : Likeness
  brief : Bool
  tellsSame : Bool
  recursive : Bool
  fillsIn : Bool
  asText : Bool
  dropsReturns : Bool
  labels : List Octets
  excluded : List Octets
  switches : Octets

/-- What stands at an operand. -/
inductive Subject where
  | missing
  | input
  | thing (t : Thing)

def Subject.isDirectory : Subject → Bool
  | .thing t => t.isDirectory
  | _ => false

def Subject.isMissing : Subject → Bool
  | .missing => true
  | _ => false

def Subject.kind : Subject → String
  | .thing t => t.kind
  | .input => "character special file"
  | .missing => "regular empty file"

/-- What stands at an operand, or why that is not known. -/
def subjectAt (s : Session) (path : Octets) : Except FileError Subject :=
  if path = ['-'] then .ok .input
  else (lookAt s true path).map .thing

/-- A name in a heading, in quotes if it could be misread. -/
def headingName (name : Octets) : Octets :=
  if name.any fun c => [' ', '"', '\\'].contains c || c.toNat < 32 || c.toNat = 127 then
    let written := fun c : Char =>
      match c with
      | '"' => text "\\\""
      | '\\' => text "\\\\"
      | '\n' => text "\\n"
      | '\t' => text "\\t"
      | c =>
        if c.toNat < 32 || c.toNat = 127 then
          ['\\', Nat.digitChar (c.toNat / 64), Nat.digitChar (c.toNat / 8 % 8),
            Nat.digitChar (c.toNat % 8)]
        else [c]
    '"' :: name.flatMap written ++ ['"']
  else name

/-- What stands for a file in a heading. -/
def Task.heading (d : Task) (s : Session) (index : Nat) (path : Octets) (subject : Subject) : Octets :=
  match d.labels[index]? with
  | some label => label
  | none =>
    let time := match subject with
      | .thing t => s.toWorld.timeOf t.place
      | .input => s.toWorld.now
      | .missing => 0
    let format := match d.manner.style with
      | .context _ => "%a %b %e %T %Y"
      | _ => "%F %T.%N %z"
    headingName path ++ '\t' :: (Moment.ofMillis time).write (text format)

/-- What a file is called in messages. -/
def Task.label (d : Task) (index : Nat) (path : Octets) : Octets := (d.labels[index]?).getD path

/-- The text of an operand; nothing after a complaint. -/
def readSubject? (path : Octets) : Subject → Act (Option Octets)
  | .missing => return some []
  | _ => do
    match ← contentOf path with
    | .ok found => return some found
    | .error e =>
      say (Quote.ifNeeded path ++ text (": " ++ e.reason))
      return none

/-- A text without the carriage returns in front of line feeds. -/
def withoutReturns : Octets → Octets
  | '\r' :: '\n' :: rest => '\n' :: withoutReturns rest
  | c :: rest => c :: withoutReturns rest
  | [] => []

def isBinary (t : Octets) : Bool := (t.take 4096).contains '\x00'

/-- Compares the texts of two files, and tells of it; the status is left. With `nested`, what is told
stands under the names of the files. -/
def Task.compareTexts (d : Task) (nested : Bool) (a b : Octets) (subjectA subjectB : Subject)
    (textA textB : Octets) : Act Nat := do
  let s ← get
  let names := d.label 0 a ++ text " and " ++ d.label 1 b
  if textA = textB then return 0
  else if !d.asText && (isBinary textA || isBinary textB) then
    if d.brief then
      Act.putLine (text "Files " ++ names ++ text " differ")
      return 1
    Act.putLine (text "Binary files " ++ names ++ text " differ")
    return 2
  else
    let lines := fun t : Octets => rawLines (if d.dropsReturns then withoutReturns t else t)
    let linesA := lines textA
    let linesB := lines textB
    let changes := d.likeness.changes d.manner.style.around linesA linesB
    let sideA : Side := ⟨d.heading s 0 a subjectA, linesA.toArray⟩
    let sideB : Side := ⟨d.heading s 1 b subjectB, linesB.toArray⟩
    let isTrivial := d.likeness.isTrivial sideA.lines sideB.lines
    let differs := changes.any fun c => !isTrivial c
    let heading :=
      if nested then
        text "diff" ++ d.switches ++ ' ' :: Quote.ifNeeded a ++ ' ' :: Quote.ifNeeded b ++ ['\n']
      else []
    let writesAll := match d.manner.style with
      | .beside _ _ hidesCommon => !hidesCommon
      | _ => false
    if d.brief then
      if differs then Act.putLine (text "Files " ++ names ++ text " differ")
      return if differs then 1 else 0
    if differs || writesAll then
      Act.put (heading ++ d.manner.write isTrivial sideA sideB changes)
    let mut status := if differs then 1 else 0
    if d.likeness.completes then
      for (path, t) in [(d.label 0 a, linesA), (d.label 1 b, linesB)] do
        if !isComplete t then
          say (path ++ text ": No newline at end of file\n")
          status := 2
    return status

/-- Compares two files that are no directories. -/
def Task.compareContents (d : Task) (nested : Bool) (a b : Octets) (subjectA subjectB : Subject) :
    Act Nat := do
  let s ← get
  let same := match subjectA, subjectB with
    | .thing x, .thing y => isSameFile s x y
    | .input, .input => true
    | _, _ => false
  let writesAll := match d.manner.style with
    | .beside _ _ hidesCommon => !hidesCommon && !d.brief
    | _ => false
  let status ←
    if same && !writesAll then pure 0
    else do
      match ← readSubject? a subjectA with
      | none => pure 2
      | some textA =>
        match ← (if same then pure (some textA) else readSubject? b subjectB) with
        | none => pure 2
        | some textB =>
          if textA = textB && writesAll then do
            let lines := (rawLines textA).toArray
            Act.put (d.manner.write (fun _ => false) ⟨[], lines⟩ ⟨[], lines⟩ [])
            pure 0
          else d.compareTexts nested a b subjectA subjectB textA textB
  if status = 0 && d.tellsSame then
    Act.putLine (text "Files " ++ d.label 0 a ++ text " and " ++ d.label 1 b ++ text " are identical")
  return status

/-- The names in a directory that are to be compared. -/
def Task.namesIn (d : Task) (s : Session) (subject : Subject) : List Octets :=
  match subject with
  | .thing t =>
    if t.isDirectory then
      (sortedNames s t.place).filter fun name =>
        !d.excluded.any fun p => Shell.Pattern.accepts (Shell.Pattern.ofText p) name
    else []
  | _ => []

/-- Names of both of two lists, in order. -/
def merged : List Octets → List Octets → List Octets
  | a, b => ((a ++ b.filter fun name => !a.contains name).mergeSort Octets.isLe)

/-- More than directories can lie in each other. -/
def maxDepth : Nat := 4096

/-- Tells that something stands on one side only. -/
def tellOnly (directory name : Octets) : Act Nat := do
  Act.putLine (text "Only in " ++ directory ++ text ": " ++ name)
  return 1

/-- Tells that two files are of different kinds. -/
def Task.tellKinds (d : Task) (a b : Octets) (subjectA subjectB : Subject) : Act Nat := do
  Act.putLine (text "File " ++ d.label 0 a ++ text (" is a " ++ subjectA.kind ++ " while file ") ++
    d.label 1 b ++ text (" is a " ++ subjectB.kind))
  return 1

/-- Compares what stands under names in two directories. The first argument bounds how deep directories
lie. -/
def Task.compareNames (d : Task) : Nat → Octets → Octets → Subject → Subject → Act Nat
  | 0, _, _, _, _ => return 0
  | bound + 1, a, b, subjectA, subjectB => do
    let s ← get
    let namesA := d.namesIn s subjectA
    let namesB := d.namesIn s subjectB
    let mut status := 0
    for name in merged namesA namesB do
      let s ← get
      let pathA := below a name
      let pathB := below b name
      let find := fun (names : List Octets) (path : Octets) =>
        if names.contains name then subjectAt s path else .ok .missing
      let found ←
        match find namesA pathA, find namesB pathB with
        | .error e, _ => do
          say (Quote.ifNeeded pathA ++ text (": " ++ errorText e))
          pure 2
        | _, .error e => do
          say (Quote.ifNeeded pathB ++ text (": " ++ errorText e))
          pure 2
        | .ok x, .ok y => do
          let isDirectory := x.isDirectory || y.isDirectory
          if (x.isMissing || y.isMissing) && (!d.fillsIn || isDirectory && !d.recursive) then
            if y.isMissing then tellOnly a name else tellOnly b name
          else if isDirectory then do
            if !(x.isMissing || y.isMissing) && !(x.isDirectory && y.isDirectory) then
              d.tellKinds pathA pathB x y
            else if d.recursive then compareNames d bound pathA pathB x y
            else do
              Act.putLine (text "Common subdirectories: " ++ pathA ++ text " and " ++ pathB)
              pure 0
          else d.compareContents true pathA pathB x y
      status := max status found
    return status

/-- Compares two operands, and leaves the status. -/
def Task.run (d : Task) (a b : Octets) : Act Nat := do
  let s ← get
  let find := fun path : Octets =>
    match subjectAt s path with
    | .error FileError.notFound =>
      if d.fillsIn then Except.ok Subject.missing else Except.error FileError.notFound
    | found => found
  let wrong := fun (path : Octets) (found : Except FileError Subject) => do
    match found with
    | .error e => say (Quote.ifNeeded path ++ text (": " ++ errorText e))
    | .ok _ => pure ()
  let foundA := find a
  let foundB := find b
  match foundA, foundB with
  | .ok .missing, .ok .missing =>
    wrong a (.error .notFound)
    wrong b (.error .notFound)
    return 2
  | .ok x, .ok y =>
    if x.isDirectory && y.isDirectory then
      match x, y with
      | .thing p, .thing q =>
        if isSameFile s p q && !d.tellsSame then return 0
        d.compareNames maxDepth a b x y
      | _, _ => return 0
    else if (x.isDirectory || y.isDirectory) && !(x.isMissing || y.isMissing) then
      let file := if x.isDirectory then b else a
      let directory := if x.isDirectory then a else b
      if file = ['-'] then
        say (text "cannot compare '-' to a directory")
        return 2
      let inner := below directory ((file.reverse.takeWhile (· != '/')).reverse)
      match subjectAt s inner with
      | .error e =>
        wrong inner (.error e)
        return 2
      | .ok z =>
        let (a, b, x, y) := if x.isDirectory then (inner, b, z, y) else (a, inner, x, z)
        if z.isDirectory then d.tellKinds a b x y
        else d.compareContents false a b x y
    else if x.isDirectory || y.isDirectory then
      if d.recursive then d.compareNames maxDepth a b x y
      else
        wrong (if x.isMissing then a else b) (.error .notFound)
        return 2
    else d.compareContents false a b x y
  | _, _ =>
    wrong a foundA
    wrong b foundB
    return 2

def table : OptionTable :=
  .of "abBcC:dD:eEF:fhHiI:lL:nNpPqrsS:tTuU:vwW:x:X:yZ"
    [("text", "a", .nothing), ("ignore-space-change", "b", .nothing),
      ("ignore-blank-lines", "B", .nothing), ("context", "context", .optional),
      ("minimal", "d", .nothing), ("ed", "e", .nothing), ("ignore-tab-expansion", "E", .nothing),
      ("speed-large-files", "H", .nothing), ("ignore-case", "i", .nothing),
      ("ignore-matching-lines", "I", .required), ("label", "L", .required), ("rcs", "n", .nothing),
      ("new-file", "N", .nothing), ("show-c-function", "p", .nothing), ("brief", "q", .nothing),
      ("recursive", "r", .nothing), ("report-identical-files", "s", .nothing),
      ("expand-tabs", "t", .nothing), ("initial-tab", "T", .nothing),
      ("unified", "unified", .optional), ("ignore-all-space", "w", .nothing),
      ("width", "W", .required), ("exclude", "x", .required), ("side-by-side", "y", .nothing),
      ("ignore-trailing-space", "Z", .nothing), ("color", "color", .optional),
      ("normal", "normal", .nothing), ("left-column", "left-column", .nothing),
      ("suppress-common-lines", "suppress-common-lines", .nothing),
      ("strip-trailing-cr", "strip-trailing-cr", .nothing),
      ("no-dereference", "no-dereference", .nothing), ("horizon-lines", "horizon-lines", .required)]

/-- The words that are options or their arguments. The first argument bounds them. -/
def optionWords : Nat → List Octets → List Octets
  | 0, _ => []
  | _, [] => []
  | bound + 1, word :: rest =>
    let consumed : Option (List Octets) := match word with
      | ['-', '-'] => none
      | '-' :: '-' :: name => (table.named name rest).toOption.map Prod.snd
      | '-' :: c :: more => (table.grouped rest (c :: more)).toOption.map Prod.snd
      | _ => none
    match consumed with
    | some left => word :: rest.take (rest.length - left.length) ++ optionWords bound left
    | none => if word = ['-', '-'] then [word] else optionWords bound rest

/-- The styles that options ask for, and how many lines around changes. -/
def styleNames (given : Given) : List String :=
  (given.filterMap fun (key, _) =>
    match key with
    | "u" | "U" | "unified" => some "unified"
    | "c" | "C" | "context" | "p" => some "context"
    | "e" | "n" | "y" | "normal" => some key
    | _ => none).eraseDups

/-- The style that options ask for; an error says what is wrong with them. -/
def styleOf (given : Given) : Except Octets Style := do
  let counts ← (given.filter fun p => ["U", "C", "unified", "context"].contains p.1).mapM
    fun (_, word) =>
      if word = [] then .ok 3
      else
        match decimal? word with
        | some n => .ok n
        | none => .error (text "invalid context length " ++ Quote.always word)
  let count := if counts = [] then 3 else counts.foldl max 0
  let names := styleNames given
  let names := if given.has "p" && 1 < names.length then names.filter (· != "context") else names
  match names with
  | [] => return .normal
  | ["unified"] => return .unified count
  | ["context"] => return .context count
  | ["e"] => return .editor
  | ["n"] => return .numbered
  | ["y"] =>
    match (given.last? "W").map decimal? with
    | some none =>
      .error (text "invalid width " ++ Quote.always ((given.last? "W").getD []))
    | width =>
      return .beside ((width.bind id).getD 130) (given.has "left-column")
        (given.has "suppress-common-lines")
  | ["normal"] => return .normal
  | _ => .error (text "conflicting output style options")

/-- What the options ask for. -/
def taskOf (given : Given) (switches : Octets) : Except Octets Task := do
  let style ← styleOf given
  let ignored ← (given.all "I").mapM fun pattern =>
    match Text.Regex.read ⟨false, false⟩ pattern with
    | .ok r => .ok r
    | .error e => .error (pattern ++ text (": " ++ e.message))
  let has := given.has
  let white : White :=
    if has "w" then .dropped
    else if has "b" then .amountDropped
    else if has "Z" then .endDropped
    else if has "E" then .tabsAreSpaces
    else .counts
  return {
    manner := ⟨style, has "t", has "T", has "p"⟩
    likeness := ⟨has "i", white, style = .editor, has "d", has "B", ignored⟩
    brief := has "q"
    tellsSame := has "s"
    recursive := has "r"
    fillsIn := has "N"
    asText := has "a"
    dropsReturns := has "strip-trailing-cr"
    labels := given.all "L"
    excluded := given.all "x"
    switches := switches }

end Diff

def diff (words : List Octets) : Act Unit :=
  withComparisonOptions Diff.table words fun given operands => do
    let switches := (Diff.optionWords (words.length + 1) words).flatMap fun w =>
      ' ' :: Quote.ifNeeded w
    match Diff.taskOf given switches, operands with
    | .error message, _ => misusedComparison message
    | .ok _, [] | .ok _, [_] =>
      misusedComparison (text "missing operand after " ++
        Quote.always (words.getLastD (← get).name))
    | .ok _, _ :: _ :: extra :: _ => misusedComparison (text "extra operand " ++ Quote.always extra)
    | .ok d, [a, b] => Act.setStatus (← d.run a b)

end BitcodeReplay.Tool
