import BitcodeReplay.Tool.Entry

/-!
The tool that changes the permissions of entries.
-/

namespace BitcodeReplay.Tool

open Shell

/-- What `chmod` tells of the changes that it makes. -/
inductive Telling where
  | nothing
  | changes
  | everything
  deriving DecidableEq, Repr

structure ModeChange where
  wanted : Octets
  fromOption : Bool
  reference : Option Nat
  recursive : Bool
  silent : Bool
  telling : Telling

/-- Whether a letter after a dash starts a mode. -/
def startsMode (c : Char) : Bool :=
  ['r', 'w', 'x', 'X', 's', 't', 'u', 'g', 'o', 'a', ',', '+', '=', '0', '1', '2', '3', '4', '5',
    '6', '7'].contains c

/-- The modes that are given like options, and the other words. -/
def modeWords : List Octets → List Octets × List Octets
  | [] => ([], [])
  | ['-', '-'] :: rest => ([], ['-', '-'] :: rest)
  | ('-' :: word) :: rest =>
    let letters := word.takeWhile fun c => ['R', 'c', 'f', 'v'].contains c
    let mode := word.drop letters.length
    let (modes, others) := modeWords rest
    if mode.head?.any startsMode && !(word.head? == some '-') then
      (('-' :: mode) :: modes, (if letters = [] then others else ('-' :: letters) :: others))
    else (modes, ('-' :: word) :: others)
  | word :: rest =>
    let (modes, others) := modeWords rest
    (modes, word :: others)

/-- The mode that an entry gets, and the one that it would get without a mask. -/
def ModeChange.modes (c : ModeChange) (s : Session) (isDirectory : Bool) (old : Nat) : Nat × Nat :=
  match c.reference with
  | some mode => (mode, mode)
  | none =>
    ((Permissions.changed? isDirectory s.umask c.wanted old).getD old,
      (Permissions.changed? isDirectory 0 c.wanted old).getD old)

def shownMode (mode : Nat) : Octets :=
  Permissions.octal mode ++ text " (" ++ modeLetters mode ++ text ")"

/-- Complains of an entry, if anything is to be said of it. -/
def ModeChange.complain (c : ModeChange) (message : Octets) : Act Unit :=
  if c.silent then Act.setStatus 1 else fail message

/-- Changes an entry, and tells of it. -/
def ModeChange.entry (c : ModeChange) (path : Octets) (loc : Location) (e : Entry) : Act Unit := do
  let s ← get
  let old := s.toWorld.modeOf loc e
  let (new, naive) := c.modes s (e = .dir) old
  if new ≠ old then set (s.modifyWorld fun w => w.setMode loc new)
  let name := Quote.always path
  if new ≠ old && c.telling ≠ .nothing then
    Act.putLine (text "mode of " ++ name ++ text " changed from " ++ shownMode old ++ text " to " ++
      shownMode new)
  else if c.telling = .everything then
    Act.putLine (text "mode of " ++ name ++ text " retained as " ++ shownMode old)
  if c.fromOption && Permissions.without new naive ≠ 0 then
    c.complain (Quote.ifNeeded path ++ text ": new permissions are " ++ modeLetters new ++
      text ", not " ++ modeLetters naive)

/-- Changes what stands at a path, and with `recursive` all below it. The first argument bounds how
deep directories lie, and the flag says that the path was an operand. -/
def ModeChange.at (c : ModeChange) : Nat → Bool → Octets → Act Unit
  | 0, _, _ => pure ()
  | bound + 1, top, path => do
    let s ← get
    let complain := fun (before : String) (after : String) =>
      c.complain (text before ++ Quote.always path ++ text after)
    let target? ← match lookAt s false path, lookAt s true path with
      | .error e, _ => do
        complain "cannot access " (": " ++ errorText e)
        pure none
      | .ok ⟨_, .link _⟩, .error _ => do
        if top then complain "cannot operate on dangling symlink " ""
        pure none
      | .ok ⟨_, .link _⟩, .ok ⟨loc, e⟩ => pure (if top then some (loc, e) else none)
      | .ok ⟨loc, e⟩, _ => pure (some (loc, e))
    match target? with
    | none => pure ()
    | some (loc, e) =>
      c.entry path loc e
      if c.recursive && e = .dir then
        for name in s.tree.namesIn loc do
          ModeChange.at c bound false (below path (Octets.ofText name))

def chmod (words : List Octets) : Act Unit :=
  let table := OptionTable.of "Rcfv"
    [("changes", "c", .nothing), ("quiet", "f", .nothing), ("silent", "f", .nothing),
      ("recursive", "R", .nothing), ("reference", "reference", .required),
      ("verbose", "v", .nothing), ("preserve-root", "pr", .nothing),
      ("no-preserve-root", "npr", .nothing)]
  let (modes, others) := modeWords words
  withOptions table others fun given operands => do
    let s ← get
    let fromOption := modes ≠ []
    let named := given.has "reference"
    let wanted := if fromOption then List.intercalate [','] modes
      else if named then [] else operands.headD []
    let paths := if fromOption || named then operands else operands.drop 1
    let telling := match given.lastOf? ["c", "v"] with
      | some "c" => Telling.changes
      | some _ => .everything
      | none => .nothing
    if paths = [] then
      if fromOption || wanted = [] then missingOperand
      else misused 1 (text "missing operand after " ++ Quote.always wanted)
    else
      let reference? := (given.last? "reference").map fun path =>
        (lookAt s true path).map fun found => found.mode s
      match reference? with
      | some (.error e) =>
        failFor "failed to get attributes of " ((given.last? "reference").getD []) e
      | _ =>
        if !named && (Permissions.changed? false s.umask wanted 0).isNone then
          misused 1 (text "invalid mode: " ++ Quote.always wanted)
        else
          let c : ModeChange :=
            ⟨wanted, fromOption, reference?.bind Except.toOption, given.has "R", given.has "f",
              telling⟩
          for path in paths do c.at (s.tree.entries.length + 2) true path

end BitcodeReplay.Tool
