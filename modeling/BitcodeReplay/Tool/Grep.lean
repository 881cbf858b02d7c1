import BitcodeReplay.Shell.Pattern
import BitcodeReplay.Text.RegexSyntax
import BitcodeReplay.Tool.Copying
import BitcodeReplay.Tool.Entry

/-!
The tool that looks for lines that a pattern matches.
-/

namespace BitcodeReplay.Tool

open Shell

namespace Grep

/-- A pattern, and how much of a line a match has to cover: a word, or all of it. -/
structure Matcher where
  regex : Text.Regex
  look : Text.Look
  word : Bool
  whole : Bool

/-- Whether a match stands apart from other words. -/
def isApart (chars : Array Char) (start stop : Nat) : Bool :=
  !((if start = 0 then none else chars[start - 1]?).any Text.Regex.isWordChar) &&
    !(chars[stop]?.any Text.Regex.isWordChar)

/-- Where the match ends that starts at a place. -/
def Matcher.at? (m : Matcher) (line : Array Char) (place : Nat) : Option Nat :=
  let stops := (m.regex.ends m.look line place []).map fun e : Nat × Text.Groups => e.1
  if m.whole then (if place = 0 then stops.find? (· == line.size) else none)
  else if m.word then stops.find? fun stop => isApart line place stop
  else stops.head?

/-- The first match from a place on. The first argument bounds how far it is looked for. -/
def Matcher.find? (m : Matcher) (line : Array Char) : Nat → Nat → Option (Nat × Nat)
  | 0, _ => none
  | bound + 1, place =>
    match m.at? line place with
    | some stop => some (place, stop)
    | none => m.find? line bound (place + 1)

def Matcher.matches (m : Matcher) (line : Array Char) : Bool :=
  (m.find? line (line.size + 1) 0).isSome

/-- All matches that are not empty. The first argument bounds the steps. -/
def Matcher.all (m : Matcher) (line : Array Char) : Nat → Nat → List (Nat × Nat)
  | 0, _ => []
  | bound + 1, place =>
    match m.find? line (line.size + 1 - place) place with
    | none => []
    | some (start, stop) =>
      if stop = start then m.all line bound (start + 1)
      else (start, stop) :: m.all line bound stop

/-- What is written of a file. -/
inductive Report where
  | lines
  | parts
  | count
  | names
  | namesWithout
  | nothing
  deriving DecidableEq, Repr

/-- How files are searched and what is written. -/
structure Search where
  matcher : Matcher
  inverted : Bool
  report : Report
  most : Option Nat
  before : Nat
  after : Nat
  numbers : Bool
  offsets : Bool
  named : Bool
  zeroNames : Bool
  ending : Char
  separator : Option Octets
  asText : Bool
  skipsBinary : Bool

/-- A line with its number, the place where it starts, and whether it is selected. -/
structure Line where
  number : Nat
  offset : Nat
  content : Octets
  selected : Bool

/-- The lines of a text. Once as many have been selected as may be, the others are not looked at. -/
def Search.select (g : Search) : Nat → Nat → Nat → List Octets → List Line
  | _, _, _, [] => []
  | found, number, offset, line :: rest =>
    let full := g.most.any (· ≤ found)
    let hit := g.matcher.matches line.toArray != g.inverted
    if full && (hit || g.after = 0) then []
    else
      ⟨number, offset, line, hit && !full⟩ ::
        g.select (if hit && !full then found + 1 else found) (number + 1) (offset + line.length + 1) rest

/-- What stands before a line. -/
def Search.prefixOf (g : Search) (name : Octets) (mark : Char) (number offset : Nat) : Octets :=
  (if g.named then name ++ [if g.zeroNames then '\x00' else mark] else []) ++
    (if g.numbers then Octets.ofNat number ++ [mark] else []) ++
    if g.offsets then Octets.ofNat offset ++ [mark] else []

/-- The lines to be written: those that are selected and those around them. -/
def Search.shown (g : Search) (lines : List Line) : List Line :=
  let hits := (lines.filter (·.selected)).map (·.number)
  lines.filter fun line => hits.any fun n => n ≤ line.number + g.before && line.number ≤ n + g.after

/-- Writes lines, with a mark between those that do not follow each other. -/
def Search.write (g : Search) (name : Octets) (last : Option Nat) : List Line → Octets
  | [] => []
  | line :: rest =>
    let grouped := g.before != 0 || g.after != 0
    let gap := match last, g.separator with
      | some n, some mark => if grouped && n + 1 < line.number then mark ++ ['\n'] else []
      | _, _ => []
    gap ++ g.prefixOf name (if line.selected then ':' else '-') line.number line.offset ++
      line.content ++ [g.ending] ++ g.write name (some line.number) rest

/-- Writes the parts of a line that match. -/
def Search.parts (g : Search) (name : Octets) (line : Line) : Octets :=
  let text := line.content.toArray
  (g.matcher.all text (text.size + 2) 0).flatMap fun (start, stop) =>
    g.prefixOf name ':' line.number (line.offset + start) ++ (text.extract start stop).toList ++
      [g.ending]

/-- What is written of a text of a name, and whether lines have been selected. `begun` says that groups
of lines have been written before. -/
def Search.run (g : Search) (name : Octets) (begun : Bool) (t : Octets) : Octets × Bool :=
  let parts := t.splitOn g.ending
  let parts := if parts.getLast? = some [] then parts.dropLast else parts
  let lines := g.select 0 1 0 parts
  let count := (lines.filter (·.selected)).length
  let binary := !g.asText && g.ending = '\n' && t.contains '\x00'
  let ending := if g.zeroNames then ['\x00'] else ['\n']
  let written :=
    match g.report with
    | .nothing => []
    | .names => if count > 0 then name ++ ending else []
    | .namesWithout => if count = 0 then name ++ ending else []
    | .count =>
      (if g.named then name ++ [if g.zeroNames then '\x00' else ':'] else []) ++
        Octets.ofNat count ++ ['\n']
    | .parts | .lines =>
      if binary then
        if count = 0 then [] else text "grep: " ++ name ++ text ": binary file matches\n"
      else if g.report = .parts then
        if g.inverted then [] else (lines.filter (·.selected)).flatMap (g.parts name)
      else
        let shown := g.shown lines
        let grouped := g.before != 0 || g.after != 0
        let gap := if grouped && begun && shown.length != 0 then
            (g.separator.map (· ++ ['\n'])).getD []
          else []
        gap ++ g.write name none shown
  (written, count > 0 && !(binary && g.skipsBinary))

def usage : Act Unit := do
  modify fun s =>
    let name := lastName s.name
    { s.report (text "Usage: " ++ name ++ text " [OPTION]... PATTERNS [FILE]...\nTry '" ++ name ++
        text " --help' for more information.\n") with status := 2 }

def table : OptionTable :=
  .of "0123456789A:abB:C:cd:D:EFf:e:GHhIilLm:noPqRrsTuUvVwXxyZz"
    [("regexp", "e", .required), ("file", "f", .required), ("ignore-case", "i", .nothing),
      ("no-ignore-case", "no-i", .nothing), ("word-regexp", "w", .nothing),
      ("line-regexp", "x", .nothing), ("null-data", "z", .nothing), ("no-messages", "s", .nothing),
      ("invert-match", "v", .nothing), ("max-count", "m", .required), ("byte-offset", "b", .nothing),
      ("line-number", "n", .nothing), ("with-filename", "H", .nothing), ("no-filename", "h", .nothing),
      ("label", "label", .required), ("only-matching", "o", .nothing), ("quiet", "q", .nothing),
      ("silent", "q", .nothing), ("text", "a", .nothing), ("directories", "d", .required),
      ("devices", "D", .required), ("recursive", "r", .nothing),
      ("dereference-recursive", "R", .nothing), ("include", "include", .required),
      ("exclude", "exclude", .required), ("exclude-dir", "exclude-dir", .required),
      ("files-without-match", "L", .nothing), ("files-with-matches", "l", .nothing),
      ("count", "c", .nothing), ("initial-tab", "T", .nothing), ("null", "Z", .nothing),
      ("before-context", "B", .required), ("after-context", "A", .required),
      ("context", "C", .required), ("color", "color", .optional), ("colour", "color", .optional),
      ("extended-regexp", "E", .nothing), ("fixed-strings", "F", .nothing),
      ("basic-regexp", "G", .nothing), ("perl-regexp", "P", .nothing),
      ("binary-files", "binary", .required), ("binary", "U", .nothing),
      ("no-group-separator", "no-gap", .nothing), ("group-separator", "gap", .required),
      ("line-buffered", "u", .nothing), ("exclude-from", "exclude-from", .required)]

/-- A pattern that stands for its own characters. -/
def literal (t : Octets) : Text.Regex :=
  t.foldr (fun c r => if r = .empty then .one (.char c) else .cat (.one (.char c)) r) .empty

/-- Letters for classes that only one kind of pattern knows, written as sets. -/
def plainClasses : Octets → Octets
  | '\\' :: 'd' :: rest => text "[0-9]" ++ plainClasses rest
  | '\\' :: c :: rest => '\\' :: c :: plainClasses rest
  | c :: rest => c :: plainClasses rest
  | [] => []

/-- Which kind of patterns the options ask for; `given` is the kind if they say nothing. -/
def kindOf (default : Char) (given : Given) : Except Unit Char :=
  let kinds := (["E", "F", "G", "P"].filter given.has).map fun k => k.toList.headD 'G'
  match kinds with
  | [] => .ok default
  | [k] => .ok k
  | _ =>
    if kinds.contains 'P' || (kinds.contains 'E' && kinds.contains 'F') then .error ()
    else .ok (((given.lastOf? ["E", "F", "G"]).getD "G").toList.headD 'G')

/-- The expression for a list of patterns. -/
def compile (kind : Char) (patterns : List Octets) : Except Text.RegexFailure Text.Regex := do
  let one := fun p : Octets =>
    if kind = 'F' then .ok (literal p)
    else if kind = 'P' then Text.Regex.read ⟨true, false⟩ (plainClasses p)
    else Text.Regex.read ⟨kind == 'E', false⟩ p
  match ← patterns.mapM one with
  | [] => return .one (.set ⟨false, []⟩)
  | first :: others => return others.foldl .alt first

/-- Whether a file or a directory in a search below directories is looked at. -/
structure Sieve where
  includes : List Octets
  excludes : List Octets
  directories : List Octets

def accepts (patterns : List Octets) (name : Octets) : Bool :=
  patterns.any fun p => (Pattern.ofText p).accepts name

def Sieve.takesFile (v : Sieve) (name : Octets) : Bool :=
  (v.includes = [] || accepts v.includes name) && !accepts v.excludes name

/-- The files at and below a path. The first argument bounds how deep directories lie. -/
def filesBelow (s : Session) (v : Sieve) (follows : Bool) : Nat → Octets → Location → List Octets
  | 0, _, _ => []
  | bound + 1, path, loc =>
    (s.tree.namesIn loc).flatMap fun name =>
      let name := Octets.ofText name
      let here := if path = [] then name else below path name
      let full := if path = [] then name else here
      match lookAt s false here, lookAt s true here with
      | .ok ⟨_, .link _⟩, .ok ⟨_, .file _ _⟩ =>
        if follows && v.takesFile name then [full] else []
      | .ok ⟨below, .dir⟩, _ =>
        if accepts v.directories name then [] else filesBelow s v follows bound full below
      | .ok ⟨_, .file _ _⟩, _ => if v.takesFile name then [full] else []
      | _, _ => []

/-- What an operand is searched as. -/
inductive Target where
  | file (path : Octets)
  | failed (path : Octets) (message : String)

/-- The files that the operands lead to. -/
def targetsOf (s : Session) (v : Sieve) (recursive follows skips : Bool) (operands : List Octets) :
    List Target :=
  let bound := s.tree.entries.length + 2
  if operands = [] && recursive then
    match lookAt s true ['.'] with
    | .ok ⟨loc, _⟩ => (filesBelow s v follows bound [] loc).map .file
    | _ => []
  else
    (orInput operands).flatMap fun path =>
      if path = ['-'] then [.file path]
      else
        match lookAt s true path with
        | .ok ⟨loc, .dir⟩ =>
          if recursive then (filesBelow s v follows bound path loc).map .file
          else if skips then []
          else [.failed path "Is a directory"]
        | _ => [.file path]

/-- Whether a file is also where the output goes. -/
def isOutput (s : Session) (stream : Nat) : Bool :=
  match s.streams[stream]?, (s.channels.lookup 1).bind fun n => s.streams[n]? with
  | some a, some b =>
    match a.device, b.device with
    | .file l, .file m => (s.toWorld.placesOf l).contains m
    | _, _ => false
  | _, _ => false

/-- Searches files, and leaves the status that says whether something was found. -/
def searchAll (g : Search) (silent : Bool) (label : Octets) (targets : List Target) : Act Unit := do
  let mut found := false
  let mut failed := false
  let mut begun := false
  for target in targets do
    match target with
    | .failed path message =>
      failed := true
      if !silent then say (path ++ text (": " ++ message))
    | .file path =>
      let name := if path = ['-'] then label else path
      match ← openInput path with
      | .error e =>
        failed := true
        if !silent then say (path ++ text (": " ++ e.reason))
      | .ok stream =>
        let writes := g.report = .lines || g.report = .parts
        if writes && isOutput (← get) stream && g.most.all (1 < ·) then
          failed := true
          say (name ++ text ": input file is also the output")
        else
          let isEnough := fun t : Octets =>
            let rest := (t.reverse.takeWhile (· != g.ending)).length
            (g.run name begun (t.take (t.length - rest))).2
          if g.most = some 1 then awaitEnough stream isEnough Act.endless 0
          else Act.awaitAll stream
          match ← takeReady stream with
          | .error e =>
            failed := true
            if !silent then say (name ++ text (": " ++ e.reason))
          | .ok content =>
            let (written, any) := g.run name begun content
            if !(g.skipsBinary && content.contains '\x00') then
              Act.put written
              begun := begun || written != []
              found := found || any
  Act.setStatus
    (if found && g.report = .nothing then 0 else if failed then 2 else if found then 0 else 1)

/-- Searches as the words say; the letter is the kind of patterns if they do not say which. -/
def run (default : Char) (words : List Octets) : Act Unit := do
  if default != 'G' then modify fun s => { s with name := text "grep" }
  match table.read words with
  | .error e =>
    say (text e.message)
    usage
  | .ok (given, operands) =>
    let has := given.has
    let explicit := has "e" || has "f"
    match explicit, operands with
    | false, [] => usage
    | _, _ =>
      let mut patterns := given.all "e"
      for path in given.all "f" do
        match ← contentOf path with
        | .ok found => patterns := patterns ++ found.lines
        | .error e => return ← failWith 2 (path ++ text (": " ++ e.reason))
      if !explicit then patterns := [operands.headD []]
      let paths := if explicit then operands else operands.drop 1
      patterns := patterns.flatMap (·.splitOn '\n')
      let context := fun (key : String) =>
        (given.last? key).map fun w => (w, decimal? w)
      let wrong := ["A", "B", "C"].findSome? fun key =>
        match context key with
        | some (w, none) => some w
        | _ => none
      if let some w := wrong then
        return ← failWith 2 (w ++ text ": invalid context length argument")
      let most := (given.last? "m").map decimal?
      if most = some none then return ← failWith 2 (text "invalid max count")
      match given.last? "d" with
      | some w =>
        if !(["read", "recurse", "skip"].contains w.toText) then
          say (text "invalid argument " ++ Quote.always w ++ text " for '--directories'")
          modify fun s => s.report
            (text "Valid arguments are:\n  - 'read'\n  - 'recurse'\n  - 'skip'\n")
          usage
          return ← Act.setStatus 1
      | none => pure ()
      match kindOf default given with
      | .error () => failWith 2 (text "conflicting matchers specified")
      | .ok kind =>
        let digits := (given.filter fun p => p.1.length == 1 && p.1.all Char.isDigit).flatMap
          fun p => p.1.toList
        let plain := if digits = [] then none else decimal? digits
        let around := ((context "C").bind (·.2)).getD (plain.getD 0)
        for p in patterns do
          match kind, p with
          | 'E', c :: _ =>
            if ['*', '+', '?'].contains c then
              say (text "warning: " ++ [c] ++ text " at start of expression")
          | _, _ => pure ()
        match compile kind patterns with
        | .error e => failWith 2 (text e.message)
        | .ok regex =>
          let recursive := has "r" || has "R" || given.last? "d" = some (text "recurse")
          let binary := (given.last? "binary").getD []
          let report :=
            if has "q" then Report.nothing
            else
              match given.lastOf? ["l", "L"] with
              | some "l" => .names
              | some _ => .namesWithout
              | none => if has "c" then .count else if has "o" then .parts else .lines
          let s ← get
          let v : Sieve := ⟨given.all "include", given.all "exclude", given.all "exclude-dir"⟩
          let targets := targetsOf s v recursive (has "R") (given.last? "d" = some (text "skip")) paths
          let named := match given.lastOf? ["h", "H"] with
            | some "h" => false
            | some _ => true
            | none => paths.length > 1 || (recursive &&
                (paths = [] || paths.any fun p => isDirectoryAt s p))
          let quiets := report = .names || report = .namesWithout || report = .nothing
          let g : Search :=
            ⟨⟨regex, ⟨has "i" || has "y", false⟩, has "w", has "x"⟩, has "v", report,
              if quiets && !has "v" then (most.bind id) <|> some 1 else most.bind id,
              ((context "B").bind (·.2)).getD around, ((context "A").bind (·.2)).getD around,
              has "n", has "b", named, has "Z", if has "z" then '\x00' else '\n',
              if has "no-gap" then none else some ((given.last? "gap").getD ['-', '-']),
              has "a" || binary = text "text", has "I" || binary = text "without-match"⟩
          searchAll g (has "s") ((given.last? "label").getD (text "(standard input)")) targets

end Grep

end BitcodeReplay.Tool
