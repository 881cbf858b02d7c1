import BitcodeReplay.Tool.Entry

/-!
The tools that remove entries.
-/

namespace BitcodeReplay.Tool

open Shell

/-- When a removal asks before it goes on. -/
inductive Asking where
  | never
  | once
  | always
  deriving DecidableEq, Repr

/-- How `rm` removes entries. -/
structure Removal where
  forced : Bool
  recursive : Bool
  emptyDirectories : Bool
  verbose : Bool
  asking : Asking
  deriving DecidableEq, Repr

/-- Whether a removal may go on. -/
def Removal.mayGoOn (r : Removal) (question : String) (path : Octets) : Act Bool :=
  if r.asking = .always then ask (text question ++ Quote.always path) else return true

/-- Takes an entry out of the tree, and says so. -/
def Removal.drop (r : Removal) (loc : Location) (what : String) (path : Octets) : Act Unit := do
  modify fun s => s.modifyWorld fun w => w.erase loc
  if r.verbose then Act.putLine (text what ++ Quote.always path)

/-- Whether a path with a slash behind it is a link. -/
def isSlashedLink (s : Session) (path : Octets) : Bool :=
  path.getLast? = some '/' &&
    (match s.placeOf false (bare path) with
      | .ok (.found _ (.link _)) => true
      | _ => false)

/-- Removes what stands at a path, and tells whether it is gone. The first argument bounds how deep
directories lie. -/
def Removal.at (r : Removal) : Nat → Octets → Act Bool
  | 0, _ => return false
  | bound + 1, path => do
    let s ← get
    match lookAt s false path with
    | .error e =>
      if r.forced && (e = .notFound || e = .notADirectory) then return true
      failFor "cannot remove " path e
      return false
    | .ok ⟨loc, .dir⟩ =>
      let names := s.tree.namesIn loc
      if !r.recursive && !r.emptyDirectories then
        failFor "cannot remove " path .isADirectory
        return false
      if !r.recursive && names ≠ [] then
        failFor "cannot remove " path .notEmpty
        return false
      if names ≠ [] then
        if !(← r.mayGoOn "descend into directory " path) then return false
      let mut all := true
      for name in names do
        let gone ← Removal.at r bound (below path (Octets.ofText name))
        all := all && gone
      if !all then return false
      if isSlashedLink s path then
        failFor "cannot remove " path .notADirectory
        return false
      if !(← r.mayGoOn "remove directory " path) then return false
      r.drop loc "removed directory " path
      return true
    | .ok ⟨loc, e⟩ =>
      if !(← r.mayGoOn ("remove " ++ (Thing.mk loc e).kind ++ " ") path) then return false
      r.drop loc "removed " path
      return true

/-- Removes an operand. What stands for a directory itself stays. -/
def Removal.operand (r : Removal) (path : Octets) : Act Unit := do
  let name := lastName path
  if r.recursive && path ≠ [] && bare path = [] then
    say (text "it is dangerous to operate recursively on " ++ Quote.always ['/'])
    fail (text "use --no-preserve-root to override this failsafe")
  else if r.recursive && (name = ['.'] || name = ['.', '.']) && isDirectoryAt (← get) path then
    fail (text "refusing to remove '.' or '..' directory: skipping " ++ Quote.always path)
  else
    let s ← get
    if !(← r.at (s.tree.entries.length + 2) path) then pure ()

/-- A file whose name looks like an option that is not known. -/
def misreadName? (s : Session) (t : OptionTable) (words : List Octets) : Option Octets :=
  match t.read words with
  | .ok _ => none
  | .error _ => words.find? fun w => w.head? = some '-' && w.length > 1 &&
      (match lookAt s false w with
        | .ok _ => true
        | .error _ => false)

def rm (words : List Octets) : Act Unit := do
  let table := OptionTable.of "dfiIrRv"
    [("dir", "d", .nothing), ("force", "f", .nothing), ("interactive", "interactive", .optional),
      ("no-preserve-root", "npr", .nothing), ("one-file-system", "ofs", .nothing),
      ("preserve-root", "pr", .optional), ("recursive", "r", .nothing), ("verbose", "v", .nothing)]
  match table.read words, misreadName? (← get) table words with
  | .error e, some name =>
    say (text e.message)
    modify fun s => s.report (text "Try '" ++ s.name ++ text " ./" ++ name ++
      text "' to remove the file " ++ Quote.always name ++ text ".\n")
    hint 1
  | .error e, none => misused 1 (text e.message)
  | .ok (given, operands), _ =>
    let asking := match given.lastOf? ["f", "i", "I", "interactive"] with
      | some "i" => Asking.always
      | some "I" => .once
      | some "interactive" =>
        match (given.last? "interactive").getD [] with
        | 'n' :: _ => .never
        | 'o' :: _ => .once
        | _ => .always
      | _ => .never
    let r : Removal :=
      ⟨given.lastOf? ["f", "i", "I"] = some "f", given.has "r" || given.has "R", given.has "d",
        given.has "v", asking⟩
    if operands = [] then
      if !r.forced then missingOperand
    else
      let count := operands.length
      let question := text "remove " ++ Octets.ofNat count ++
        text (if count = 1 then " argument" else " arguments") ++
        text (if r.recursive then " recursively" else "")
      let goesOn ←
        if asking = .once && (r.recursive || count > 3) then ask question else pure true
      if goesOn then
        for path in operands do r.operand path

/-- Removes an empty directory. -/
def removeDirectory (path : Octets) : Act (Except String Unit) := do
  let s ← get
  match lookAt s false path with
  | .error e => return .error (errorText e)
  | .ok ⟨loc, .dir⟩ =>
    if isSlashedLink s path then return .error "Symbolic link not followed"
    if lastName path = ['.'] then return .error "Invalid argument"
    if s.tree.namesIn loc ≠ [] || lastName path = ['.', '.'] then
      return .error (errorText .notEmpty)
    set (s.modifyWorld fun w => w.erase loc)
    return .ok ()
  | .ok _ => return .error (errorText .notADirectory)

/-- Removes a directory and, with `parents`, those above it that hold nothing else. The first argument
bounds their number. -/
def removeUpwards (verbose ignoring parents first : Bool) : Nat → Octets → Act Unit
  | 0, _ => pure ()
  | bound + 1, path => do
    if verbose then tell (text "removing directory, " ++ Quote.always path)
    match ← removeDirectory path with
    | .error e =>
      if !(ignoring && e = errorText .notEmpty) then
        failOn (if first then "failed to remove " else "failed to remove directory ") path (": " ++ e)
    | .ok () =>
      let above := ((bare path).reverse.dropWhile (· != '/')).reverse
      if parents && bare above ≠ [] then
        removeUpwards verbose ignoring parents false bound (bare above)

def rmdir (words : List Octets) : Act Unit :=
  let table := OptionTable.of "pv"
    [("ignore-fail-on-non-empty", "ignore", .nothing), ("parents", "p", .nothing),
      ("verbose", "v", .nothing)]
  withOptions table words fun given operands => do
    if operands = [] then missingOperand
    for path in operands do
      removeUpwards (given.has "v") (given.has "ignore") (given.has "p") true (path.length + 1) path

def unlink (words : List Octets) : Act Unit :=
  withOptions (.of "" []) words fun _ operands => do
    match operands with
    | [] => missingOperand
    | _ :: extra :: _ => extraOperand extra
    | [path] =>
      match lookAt (← get) false path with
      | .error e => failFor "cannot unlink " path e
      | .ok ⟨_, .dir⟩ => failFor "cannot unlink " path .isADirectory
      | .ok ⟨loc, _⟩ => modify fun s => s.modifyWorld fun w => w.erase loc

end BitcodeReplay.Tool
