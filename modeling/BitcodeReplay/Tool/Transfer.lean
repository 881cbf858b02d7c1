import BitcodeReplay.Tool.Making

/-!
The tools that copy and move entries, and those that give files more places and make links to paths.
-/

namespace BitcodeReplay.Tool

open Shell

/-- Which links are followed when entries are copied. -/
inductive Following where
  | never
  | operands
  | always
  deriving DecidableEq, Repr

/-- What is made of a file that is copied. -/
inductive Product where
  | copy
  | place
  | link
  deriving DecidableEq, Repr

/-- What is done about something that stands where an entry is to go. -/
inductive Clash where
  | overwrite
  | ask
  | skip
  deriving DecidableEq, Repr

/-- How entries are copied or moved. -/
structure Transfer where
  recursive : Bool
  following : Following
  product : Product
  clash : Clash
  keepsMode : Bool
  keepsTime : Bool
  update : Bool
  replaces : Bool
  backup : Option Octets
  verbose : Bool

/-- The operand that a copy has started with, and where it goes. -/
structure Origin where
  source : Octets
  target : Octets
  place : Option Location

/-- Whether a link at a path is followed. -/
def Transfer.follows (t : Transfer) (top : Bool) : Bool :=
  match t.following with
  | .never => false
  | .operands => top
  | .always => true

/-- Whether something may go where something else stands. -/
def mayOverwrite (clash : Clash) (path : Octets) : Act Bool :=
  match clash with
  | .overwrite => return true
  | .skip => return false
  | .ask => ask (text "overwrite " ++ Quote.always path)

/-- Whether the copy of an entry would destroy it. -/
def wouldDestroy (s : Session) (follows replaces : Bool) (source target : Octets) : Bool :=
  match lookAt s follows source, lookAt s true source, lookAt s false target, lookAt s true target with
  | .ok a, whole, .ok b, final =>
    if b.isLink && replaces then isSameFile s a b
    else if follows then final.toOption.any fun f => isSameFile s a f
    else if a.isLink then
      isSameFile s a b || (!b.isLink && whole.toOption.any fun w => isSameFile s w b)
    else final.toOption.any fun f => isSameFile s a f
  | _, _, _, _ => false

/-- Puts what stands at a path out of the way, under a name with an ending. -/
def keepBackup (ending : Octets) (path : Octets) : Act Unit := do
  let s ← get
  match s.toWorld.rename (s.place path) (s.place (path ++ ending)) with
  | .ok w => set { s with toWorld := w }
  | .error _ => pure ()

/-- Takes what stands at a path out of the tree. -/
def dropAt (path : Octets) : Act Unit := do
  let s ← get
  match lookAt s false path with
  | .ok ⟨loc, _⟩ => set (s.modifyWorld fun w => w.erase loc)
  | _ => pure ()

/-- Gives a copy the mode and the time of what it was made from. -/
def Transfer.finish (t : Transfer) (isNew : Bool) (source : Thing) (target : Octets) : Act Unit := do
  let s ← get
  let mode := source.mode s
  match source, lookAt s false target with
  | ⟨loc, _⟩, .ok ⟨dest, e⟩ =>
    let isLink := match e with
      | .link _ => true
      | _ => false
    if t.keepsMode && !isLink then
      modify fun s => s.modifyWorld fun w => w.setMode dest mode
    else if isNew && !isLink then
      let mode := Permissions.without (mode &&& 0o777) s.umask
      modify fun s => s.modifyWorld fun w =>
        if w.modeOf dest e = mode then w else w.setMode dest mode
    if t.keepsTime then modify fun s => s.modifyWorld fun w => w.setTime dest (w.timeOf loc)
  | _, _ => pure ()

/-- Copies the content of a file. -/
def Transfer.content (t : Transfer) (source : Octets) (thing : Thing) (target : Octets) :
    Act Bool := do
  let s ← get
  let isNew := !(lookAt s true target).isOk
  match lookAt s false target with
  | .ok found =>
    if found.isLink && isNew then
      failOn "not writing through dangling symlink " target ""
      return false
  | .error _ => pure ()
  let found ← contentOf source
  let s ← get
  match found, s.openPath target .write with
  | .error e, _ =>
    failOn "cannot open " source (" for reading: " ++ e.reason)
    return false
  | _, .error e =>
    failFor "cannot create regular file " target (if e = .isADirectory then .notADirectory else e)
    return false
  | .ok bytes, .ok (s, stream) =>
    match s.toWorld.write stream bytes with
    | .ok w => set { s with toWorld := w }
    | .error e =>
      set s
      failOn "error writing " target (": " ++ e.message)
    t.finish isNew thing target
    return true

/-- Makes a link, in the place of what stands there if that is a link or a file. -/
def putLink (goal target : Octets) : Act (Except FileError Unit) := do
  let s ← get
  if goal = [] then return .error .notFound
  match s.placeOf false target with
  | .error e => return .error e
  | .ok (.found _ _) => return .error .alreadyExists
  | .ok (.free loc) =>
    set (s.modifyWorld fun w =>
      { w with tree := w.tree.put loc (.link goal.toText) }.stamp loc)
    return .ok ()

/-- Gives a file one more place. -/
def putPlace (loc : Location) (target : Octets) : Act (Except FileError Unit) := do
  let s ← get
  match s.placeOf false target with
  | .error e => return .error e
  | .ok (.found _ _) => return .error .alreadyExists
  | .ok (.free dest) =>
    set (s.modifyWorld fun w => w.addPlace loc dest)
    return .ok ()

def putPair (source target : Octets) : Act Unit :=
  Act.putLine (Quote.always source ++ text " -> " ++ Quote.always target)

/-- Makes what is asked for of something that is no directory. -/
def Transfer.single (t : Transfer) (source : Octets) (thing : Thing) (target : Octets) : Act Bool := do
  let failWithBoth := fun (what : String) (e : FileError) => do
    fail (text what ++ Quote.always target ++ text " to " ++ Quote.always source ++
      text (": " ++ errorText e))
    pure false
  match t.product, thing with
  | .link, _ =>
    match ← putLink source target with
    | .ok () => return true
    | .error e => failWithBoth "cannot create symbolic link " e
  | .place, ⟨loc, _⟩ =>
    match ← putPlace loc target with
    | .ok () => return true
    | .error e => failWithBoth "cannot create hard link " e
  | _, ⟨_, .link goal⟩ =>
    match ← putLink (Octets.ofText goal) target with
    | .ok () =>
      t.finish true thing target
      return true
    | .error e =>
      failFor "cannot create symbolic link " target e
      return false
  | _, _ => t.content source thing target

/-- Clears the place of a copy, and tells whether it can be made. -/
def Transfer.clear (t : Transfer) (source : Octets) (thing : Thing) (top : Bool)
    (made : List Location) (target : Octets) : Act Bool := do
  let s ← get
  let isRegular := !thing.isLink && t.product = .copy && t.backup.isNone && !t.replaces
  match lookAt s isRegular target with
  | .error e =>
    if e = .notFound then return true
    failFor "cannot stat " target e
    return false
  | .ok found =>
    if t.product = .place && isSameFile s thing found then return false
    let destroys := if t.product = .copy then wouldDestroy s (t.follows top) t.replaces source target
      else isSameFile s thing found
    if destroys && !(t.backup.isSome && !thing.isDirectory) then
      fail (Quote.always source ++ text " and " ++ Quote.always target ++ text " are the same file")
      return false
    if thing.isDirectory && found.isDirectory then return true
    if t.clash = .skip then return false
    let isOlder := s.toWorld.timeOf thing.place ≤ s.toWorld.timeOf found.place
    if t.update && !thing.isDirectory && isOlder then return false
    if thing.isDirectory then
      fail (text "cannot overwrite non-directory " ++ Quote.always target ++
        text " with directory " ++ Quote.always source)
      return false
    if found.isDirectory then
      failOn "cannot overwrite directory " target " with non-directory"
      return false
    let isMade := made.contains found.place
    if top && isMade then
      fail (text "will not overwrite just-created " ++ Quote.always target ++ text " with " ++
        Quote.always source)
      return false
    if !(← mayOverwrite t.clash target) then return false
    match t.backup with
    | some ending => keepBackup ending target
    | none => if t.replaces || (thing.isLink && t.product = .copy) then dropAt target
    return true

/-- Copies what stands at a path, with all that is below it. `made` are the places that earlier
operands have gone to. The first argument bounds how deep directories lie. -/
def Transfer.copy (t : Transfer) (made : List Location) : Nat → Option Origin → Octets → Octets →
    Act Bool
  | 0, _, _, _ => return false
  | bound + 1, origin?, source, target => do
    let s ← get
    let top := origin?.isNone
    match lookAt s (t.follows top) source with
    | .error e =>
      failFor "cannot stat " source e
      return false
    | .ok thing =>
      if thing.isDirectory && !t.recursive then
        failOn "-r not specified; omitting directory " source ""
        return false
      let isOwnTarget := match thing, origin? with
        | ⟨loc, _⟩, some origin => origin.place == some loc
        | _, _ => false
      if isOwnTarget then
        let origin := origin?.getD ⟨source, target, none⟩
        fail (text "cannot copy a directory, " ++ Quote.always origin.source ++
          text ", into itself, " ++ Quote.always origin.target)
        return false
      let status := s.status
      if !(← t.clear source thing top made target) then return (← get).status = status
      match thing with
      | ⟨loc, .dir⟩ =>
        let isNew := !isDirectoryAt (← get) target
        if isNew then
          match ← makeDirectory target with
          | .error e =>
            failFor "cannot create directory " target e
            return false
          | .ok () => if t.verbose then putPair source target
        let s ← get
        let place := match s.placeOf true target with
          | .ok (.found dest _) => some dest
          | _ => none
        let origin := origin?.getD ⟨source, target, if isNew then place else none⟩
        let mut all := true
        for name in s.tree.namesIn loc do
          let name := Octets.ofText name
          let copied ← Transfer.copy t made bound (some origin) (below source name) (below target name)
          all := all && copied
        t.finish isNew thing target
        return all
      | _ =>
        if t.verbose then putPair source target
        t.single source thing target

/-- Where an operand goes in a directory. -/
def placeIn (directory source : Octets) : Octets :=
  if lastName source = ['.', '.'] then directory else below directory (lastName source)

/-- What the operands of a tool that copies or moves ask for: the sources, each with its target. -/
def targets (given : Given) (operands : List Octets) : Act (Option (List (Octets × Octets))) := do
  let s ← get
  let intoDirectory := fun (what : String) (directory : Octets) (sources : List Octets) =>
    match lookAt s true directory with
    | .ok ⟨_, .dir⟩ => pure (some (sources.map fun source => (source, placeIn directory source)))
    | .ok _ => do
      failFor what directory .notADirectory
      pure none
    | .error e => do
      failFor what directory e
      pure none
  match given.last? "t", operands with
  | _, [] =>
    misused 1 (text "missing file operand")
    return none
  | some directory, sources => intoDirectory "target directory " directory sources
  | none, [source] =>
    misused 1 (text "missing destination file operand after " ++ Quote.always source)
    return none
  | none, source :: target :: more =>
    if given.has "T" then
      match more with
      | [] => return some [(source, target)]
      | extra :: _ =>
        extraOperand extra
        return none
    else
      let last := (target :: more).getLast?.getD []
      if more = [] && !isDirectoryAt s target then return some [(source, target)]
      else intoDirectory "target " last operands.dropLast

/-- The options that the tools of this kind share. -/
def transferNames : List (String × String × Need) :=
  [("backup", "b", .optional), ("force", "f", .nothing), ("interactive", "i", .nothing),
    ("no-clobber", "n", .nothing), ("no-target-directory", "T", .nothing),
    ("strip-trailing-slashes", "strip", .nothing), ("suffix", "S", .required),
    ("target-directory", "t", .required), ("update", "u", .optional), ("verbose", "v", .nothing)]

def backupOf (given : Given) : Option Octets :=
  if given.has "b" || given.has "S" then some ((given.last? "S").getD ['~']) else none

def clashOf (given : Given) : Clash :=
  match given.lastOf? ["f", "i", "n"] with
  | some "i" => .ask
  | some "n" => .skip
  | _ => .overwrite

def cp (words : List Octets) : Act Unit := do
  let table := OptionTable.of "abdfHilLnprRst:uvxPS:T"
    (transferNames ++ [("archive", "a", .nothing), ("dereference", "L", .nothing),
      ("link", "l", .nothing), ("no-dereference", "P", .nothing),
      ("no-preserve", "no-preserve", .required), ("one-file-system", "x", .nothing),
      ("parents", "parents", .nothing), ("path", "parents", .nothing),
      ("preserve", "preserve", .optional), ("recursive", "r", .nothing),
      ("remove-destination", "remove-destination", .nothing), ("sparse", "sparse", .required),
      ("reflink", "reflink", .optional), ("symbolic-link", "s", .nothing),
      ("attributes-only", "attributes-only", .nothing)])
  withOptions table words fun given operands => do
    let has := given.has
    let recursive := has "r" || has "R" || has "a"
    let kept := ((given.last? "preserve").getD []).splitOn ','
    let keeps := fun what => has "p" || has "a" || kept.contains (text what) ||
      kept.contains (text "all") || (has "preserve" && kept = [[]])
    let following := match given.lastOf? ["H", "L", "P", "d", "a"] with
      | some "H" => Following.operands
      | some "L" => .always
      | some _ => .never
      | none => if recursive && !has "l" then .never else .always
    let clash := match given.lastOf? ["i", "n"] with
      | some "i" => Clash.ask
      | some _ => .skip
      | none => .overwrite
    let t : Transfer :=
      ⟨recursive, following, if has "s" then .link else if has "l" then .place else .copy, clash,
        keeps "mode", keeps "timestamps", has "u",
        has "remove-destination" || ((has "s" || has "l") && has "f"), backupOf given, has "v"⟩
    let parents := has "parents"
    match ← targets given operands with
    | none => pure ()
    | some pairs =>
      let directory := (given.last? "t").getD (operands.getLast?.getD [])
      if parents && !isDirectoryAt (← get) directory then
        misused 1 (text "with --parents, the destination must be a directory")
      else
        let mut made : List Location := []
        let mut seen : List Location := []
        for (source, target) in pairs do
          let target := if parents then below directory (source.dropWhile (· == '/')) else target
          if parents then
            if !(← makeWithAncestors t.verbose (directoryName target)) then return ()
          let s ← get
          let place? := match lookAt s (t.follows true) source with
            | .ok ⟨loc, _⟩ => some loc
            | _ => none
          let isRepeated := place?.any fun loc => seen.contains loc
          if isRepeated then
            let isDir := (lookAt s true source).toOption.any Thing.isDirectory
            say (text ("warning: source " ++ (if isDir then "directory " else "file ")) ++
              Quote.always source ++ text " specified more than once")
          else
            seen := place?.toList ++ seen
            let isThere := (lookAt s true target).isOk
            let bound := s.tree.entries.length + 2
            if ← t.copy made bound none source target then
              match lookAt (← get) false target with
              | .ok ⟨loc, _⟩ => if !isThere || pairs.length > 1 then made := loc :: made
              | _ => pure ()

/-- Why an entry cannot be moved. -/
def moveFailure (source target : Octets) (e : FileError) : Octets :=
  match e with
  | .invalidInput =>
    text "cannot move " ++ Quote.always source ++ text " to a subdirectory of itself, " ++
      Quote.always target
  | e =>
    text "cannot move " ++ Quote.always source ++ text " to " ++ Quote.always target ++
      text (": " ++ errorText e)

/-- Whether a path ends in what stands for a directory itself. -/
def isDirectoryItself (path : Octets) : Bool := [['.'], ['.', '.']].contains (lastName path)

/-- Moves an entry. -/
def moveTo (t : Transfer) (made : List Location) (source target : Octets) : Act Bool := do
  let s ← get
  match lookAt s false source with
  | .error e =>
    failFor "cannot stat " source e
    return false
  | .ok thing@⟨loc, _⟩ =>
    let found? := (lookAt s false target).toOption
    let isDenied : Option FileError := match lookAt s false target with
      | .error e => if e = .notFound then none else some e
      | .ok _ => none
    if let some e := isDenied then
      if e = .notADirectory then
        failFor "cannot stat " target e
        return false
    if let some found := found? then
      let isReferent := thing.isLink &&
        ((lookAt s true source).toOption.any fun w => isSameFile s w found)
      let isNested := FileTree.isWithin found.place loc && found.place != loc
      if (isSameFile s thing found && !thing.isDirectory) || isReferent then
        fail (Quote.always source ++ text " and " ++ Quote.always target ++ text " are the same file")
        return false
      if isSameFile s thing found then
        fail (Quote.always source ++ text " and " ++ Quote.always target ++ text " are the same file")
        return false
      if t.clash = .skip then return true
      let isOlder := s.toWorld.timeOf loc ≤ s.toWorld.timeOf found.place
      if t.update && !thing.isDirectory && isOlder then return true
      if thing.isDirectory && !found.isDirectory then
        fail (text "cannot overwrite non-directory " ++ Quote.always target ++
          text " with directory " ++ Quote.always source)
        return false
      if !thing.isDirectory && found.isDirectory && !isNested then
        failOn "cannot overwrite directory " target " with non-directory"
        return false
      let isMade := made.contains found.place
      if isMade then
        fail (text "will not overwrite just-created " ++ Quote.always target ++ text " with " ++
          Quote.always source)
        return false
      if !(← mayOverwrite t.clash target) then return true
      if let some ending := t.backup then
        if !found.isDirectory then keepBackup ending target
    let s ← get
    if isDirectoryItself source then
      fail (text "cannot move " ++ Quote.always source ++ text " to " ++ Quote.always target ++
        text ": Device or resource busy")
      return false
    let slashedLink := source.getLast? = some '/' &&
      ((lookAt s false (bare source)).toOption.any Thing.isLink)
    let slashedTarget := !thing.isDirectory && target.getLast? = some '/'
    let result := if slashedLink || slashedTarget then .error .notADirectory
      else if target = [] then .error .notFound
      else
        let goal := if thing.isDirectory then bare target else target
        s.toWorld.rename (s.place (if thing.isDirectory then bare source else source)) (s.place goal)
    match result with
    | .ok w =>
      set { s with toWorld := w }
      if t.verbose then Act.putLine (text "renamed " ++ Quote.always source ++ text " -> " ++
        Quote.always target)
      return true
    | .error e =>
      fail (moveFailure source target e)
      return false

def mv (words : List Octets) : Act Unit := do
  let table := OptionTable.of "bfint:uvS:TZ" transferNames
  withOptions table words fun given operands => do
    let t : Transfer :=
      ⟨true, .never, .copy, clashOf given, true, true, given.has "u", true, backupOf given,
        given.has "v"⟩
    match ← targets given operands with
    | none => pure ()
    | some pairs =>
      let mut made := []
      for (source, target) in pairs do
        let source := if given.has "strip" then bare source else source
        if ← moveTo t made source target then
          match lookAt (← get) false target with
          | .ok ⟨loc, _⟩ => if pairs.length > 1 then made := loc :: made
          | _ => pure ()

/-- Makes directories like `install -d`. -/
def installDirectories (verbose : Bool) (mode? : Option Nat) (paths : List Octets) : Act Unit := do
  for path in paths do
    let mut goesOn := true
    for above in ancestors (bare path) ++ [path] do
      if goesOn && !isDirectoryAt (← get) above then
        match ← makeDirectory above with
        | .ok () =>
          if verbose then tell (text "creating directory " ++ Quote.always above)
        | .error e =>
          failFor "cannot create directory " above e
          goesOn := false
    match mode?, lookAt (← get) true path with
    | some mode, .ok ⟨loc, .dir⟩ => modify fun s => s.modifyWorld fun w => w.setMode loc mode
    | _, _ => pure ()

/-- Copies files, and gives them a mode. -/
def install (words : List Octets) : Act Unit := do
  let table := OptionTable.of "bcCdDg:m:o:psS:t:TvZ"
    (transferNames ++ [("directory", "d", .nothing), ("mode", "m", .required),
      ("preserve-timestamps", "p", .nothing), ("strip", "s", .nothing), ("owner", "o", .required),
      ("group", "g", .required), ("compare", "C", .nothing)])
  withOptions table words fun given operands => do
    let wanted? := given.last? "m"
    let mode? := wanted?.map fun w => Permissions.changed? (given.has "d") 0 w 0
    if mode? = some none then failOn "invalid mode " (wanted?.getD []) ""
    else if given.has "d" then
      if operands = [] then misused 1 (text "missing file operand")
      else installDirectories (given.has "v") (some ((mode?.bind id).getD 0o755)) operands
    else
      if given.has "D" && operands.length = 2 && !given.has "t" then
        let target := operands.getLast?.getD []
        if !isDirectoryAt (← get) target then
          installDirectories (given.has "v") none
            (if directoryName target = ['.'] then [] else [directoryName target])
      if let some directory := given.last? "t" then
        if given.has "D" then installDirectories (given.has "v") none [directory]
      match ← targets given operands with
      | none => pure ()
      | some pairs =>
        for (source, target) in pairs do
          let s ← get
          match lookAt s true source, lookAt s false target with
          | .error e, _ => failFor "cannot stat " source e
          | .ok ⟨_, .dir⟩, _ => failOn "omitting directory " source ""
          | .ok thing, found =>
            let t : Transfer :=
              ⟨false, .always, .copy, .overwrite, false, given.has "p", false, true,
                backupOf given, given.has "v"⟩
            if wouldDestroy s true false source target then
              fail (Quote.always source ++ text " and " ++ Quote.always target ++
                text " are the same file")
            else if found.toOption.any Thing.isDirectory then
              failOn "cannot overwrite directory " target " with non-directory"
            else
              if found.isOk then
                dropAt target
                if given.has "v" then Act.putLine (text "removed " ++ Quote.always target)
              if given.has "v" then putPair source target
              if ← t.content source thing target then
                match lookAt (← get) true target with
                | .ok ⟨loc, _⟩ =>
                  let mode := (mode?.bind id).getD 0o755
                  modify fun s => s.modifyWorld fun w => w.setMode loc mode
                | _ => pure ()

open Shell

/-- What `ln` makes, and what it does about what stands in the way. -/
structure Linking where
  symbolic : Bool
  relative : Bool
  follows : Bool
  forced : Bool
  asks : Bool
  keepsTarget : Bool
  backup : Option Octets
  verbose : Bool

/-- What a link holds that leads from one path to another. -/
def Linking.goal (l : Linking) (s : Session) (source target : Octets) : Octets :=
  if !l.relative then source
  else
    match canonical s .none (directoryName target), canonical s .none source with
    | .ok base, .ok path => Tool.relative base path
    | _, _ => source

/-- Makes a link or one more place of a file. -/
def Linking.make (l : Linking) (source target : Octets) : Act Unit := do
  let s ← get
  let kind := if l.symbolic then "symbolic link " else "hard link "
  let whole := lookAt s l.follows source
  match whole with
  | .error e => if !l.symbolic then return ← failFor "failed to access " source e
  | .ok found =>
    if !l.symbolic && found.isDirectory then
      return ← fail (Quote.ifNeeded source ++ text ": hard link not allowed for directory")
  let clash := (lookAt s false target).toOption
  if let some found := clash then
    if l.forced || l.asks || l.backup.isSome then
      let source? := lookAt s (!l.symbolic && l.follows) source
      if source?.toOption.any fun a => isSameFile s a found then
        if l.symbolic || lastName source = lastName target then
          return ← fail (Quote.always source ++ text " and " ++ Quote.always target ++
            text " are the same file")
      if !found.isDirectory then
        if l.asks then
          if !(← ask (text "replace " ++ Quote.always target)) then return ()
        match l.backup with
        | some ending => keepBackup ending target
        | none => dropAt target
  let made ←
    if l.symbolic then putLink (l.goal s source target) target
    else
      match whole with
      | .ok ⟨loc, _⟩ => putPlace loc target
      | _ => pure (.error .notFound)
  match made with
  | .ok () =>
    if l.verbose then
      Act.putLine (Quote.always target ++ text (if l.symbolic then " -> " else " => ") ++
        Quote.always (if l.symbolic then l.goal s source target else source))
  | .error e =>
    let names := if l.symbolic && (source = [] || e = .tooManyLinks) then
        Quote.always target ++ text " -> " ++ Quote.always source
      else if !l.symbolic && e != .alreadyExists then
        Quote.always target ++ text " => " ++ Quote.always source
      else Quote.always target
    fail (text ("failed to create " ++ kind) ++ names ++ text (": " ++ errorText e))

def ln (words : List Octets) : Act Unit := do
  let table := OptionTable.of "bdfFinrst:vLPS:T"
    [("backup", "b", .optional), ("directory", "d", .nothing), ("force", "f", .nothing),
      ("interactive", "i", .nothing), ("logical", "L", .nothing), ("no-dereference", "n", .nothing),
      ("no-target-directory", "T", .nothing), ("physical", "P", .nothing),
      ("relative", "r", .nothing), ("suffix", "S", .required), ("symbolic", "s", .nothing),
      ("target-directory", "t", .required), ("verbose", "v", .nothing)]
  withOptions table words fun given operands => do
    let has := given.has
    let last := given.lastOf? ["f", "i"]
    let l : Linking :=
      ⟨has "s", has "r", given.lastOf? ["L", "P"] = some "L", last = some "f", last = some "i",
        has "n", backupOf given, has "v"⟩
    let s ← get
    let isPlace := fun (path : Octets) =>
      isDirectoryAt s path && !(l.keepsTarget && (lookAt s false path).toOption.any Thing.isLink)
    let into := fun (directory : Octets) (sources : List Octets) => do
      for source in sources do l.make source (placeIn directory source)
    match given.last? "t", operands with
    | _, [] => misused 1 (text "missing file operand")
    | some directory, sources =>
      match lookAt s true directory with
      | .ok ⟨_, .dir⟩ => into directory sources
      | .ok _ => failFor "target directory " directory .notADirectory
      | .error e => failFor "failed to access " directory e
    | none, [source] =>
      if has "T" then misused 1 (text "missing destination file operand after " ++ Quote.always source)
      else l.make source (placeIn ['.'] source |>.drop 2)
    | none, [source, target] =>
      if !has "T" && isPlace target then into target [source] else l.make source target
    | none, _ :: _ :: extra :: _ =>
      let directory := operands.getLast?.getD []
      if has "T" then extraOperand extra
      else
        match lookAt s true directory with
        | .ok ⟨_, .dir⟩ => into directory operands.dropLast
        | .ok _ => failFor "target " directory .notADirectory
        | .error e => failFor "target " directory e

def link (words : List Octets) : Act Unit :=
  withOptions (.of "" []) words fun _ operands => do
    match operands with
    | [] => missingOperand
    | [first] => misused 1 (text "missing operand after " ++ Quote.always first)
    | _ :: _ :: extra :: _ => extraOperand extra
    | [source, target] =>
      let failWith := fun e => fail (text "cannot create link " ++ Quote.always target ++ text " to " ++
        Quote.always source ++ text (": " ++ errorText e))
      match lookAt (← get) false source with
      | .error e => failWith e
      | .ok ⟨_, .dir⟩ => failWith .permissionDenied
      | .ok ⟨loc, _⟩ =>
        match ← putPlace loc target with
        | .ok () => pure ()
        | .error e => failWith e

end BitcodeReplay.Tool
