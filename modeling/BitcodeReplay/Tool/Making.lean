import BitcodeReplay.Tool.Entry
import BitcodeReplay.Tool.Moment

/-!
The tools that make entries: directories, empty files, and files of a size.
-/

namespace BitcodeReplay.Tool

open Shell

/-- Puts a new directory at a free place, with the permissions that the mask leaves. -/
def putDirectory (loc : Location) : Act Unit :=
  modify fun s => s.modifyWorld fun w =>
    let w := { w with tree := w.tree.put loc .dir }.stamp loc
    if s.umask = 0o022 then w else w.setMode loc (Permissions.without 0o777 s.umask)

/-- The beginnings of a path that end before a slash, the shortest first. -/
def ancestors (path : Octets) : List Octets :=
  ((List.range path.length).filter fun i =>
    path[i]? == some '/' && i != 0 && path[i - 1]? != some '/').map (path.take ·)

/-- Makes one directory; the error says why it cannot be made. -/
def makeDirectory (path : Octets) : Act (Except FileError Unit) := do
  let s ← get
  if path = [] then return .error .notFound
  match s.placeOf false (if bare path = [] then path else bare path) with
  | .error e => return .error e
  | .ok (.found _ _) => return .error .alreadyExists
  | .ok (.free loc) =>
    putDirectory loc
    return .ok ()

/-- Makes a directory if there is none, and tells whether there is one now. -/
def ensureDirectory (verbose last : Bool) (path : Octets) : Act Bool := do
  let s ← get
  let found := lookAt s true path
  match found with
  | .ok ⟨_, .dir⟩ => return true
  | _ =>
    match ← makeDirectory path with
    | .ok () =>
      if verbose then tell (text "created directory " ++ Quote.always path)
      return true
    | .error .alreadyExists =>
      let isFile := match found with
        | .ok _ => true
        | .error _ => false
      failFor "cannot create directory " path
        (if isFile && !last then .notADirectory else .alreadyExists)
      return false
    | .error e =>
      failFor "cannot create directory " path e
      return false

/-- Makes a directory and those above it that are missing. -/
def makeWithAncestors (verbose : Bool) (path : Octets) : Act Bool := do
  for above in ancestors (bare path) do
    if !(← ensureDirectory verbose false above) then return false
  ensureDirectory verbose true path

def mkdir (words : List Octets) : Act Unit :=
  let table := OptionTable.of "m:pvZ"
    [("mode", "m", .required), ("parents", "p", .nothing), ("verbose", "v", .nothing)]
  withOptions table words fun given operands => do
    let s ← get
    let mode? := (given.last? "m").map fun t => Permissions.changed? true s.umask t 0o777
    if operands = [] then missingOperand
    else if mode? = some none then failOn "invalid mode " ((given.last? "m").getD []) ""
    else
      for path in operands do
        let isThere := isDirectoryAt (← get) path
        let made ←
          if given.has "p" then makeWithAncestors (given.has "v") path
          else do
            match ← makeDirectory path with
            | .error e =>
              failFor "cannot create directory " path e
              pure false
            | .ok () =>
              if given.has "v" then tell (text "created directory " ++ Quote.always path)
              pure true
        match mode?, lookAt (← get) true path with
        | some (some mode), .ok ⟨loc, .dir⟩ =>
          if made && !isThere then modify fun s => s.modifyWorld fun w => w.setMode loc mode
        | _, _ => pure ()

/-- Makes special entries at paths, with a mode if one is given. -/
def makeSpecials (kind : Special) (mode? : Option Nat) (complaint : String) (paths : List Octets) :
    Act Unit := do
  for path in paths do
    let s ← get
    match if path = [] then .error .notFound else s.placeOf false path with
    | .error e => failFor complaint path e
    | .ok (.found _ _) => failFor complaint path .alreadyExists
    | .ok (.free loc) =>
      let mode := mode?.getD (Permissions.without 0o666 s.umask)
      set (s.modifyWorld fun w =>
        ({ w with tree := w.tree.put loc (.special kind) }.stamp loc).setMode loc mode)

def makingTable : OptionTable :=
  .of "m:Z" [("mode", "m", .required), ("context", "context", .optional)]

/-- The mode that an option gives, if it gives one; nothing after a complaint. -/
def modeFor (given : Given) : Act (Option (Option Nat)) := do
  match given.last? "m" with
  | none => return some none
  | some t =>
    match Permissions.changed? false (← get).umask t 0o666 with
    | some mode => return some (some mode)
    | none =>
      fail (text "invalid mode")
      return none

def mkfifo (words : List Octets) : Act Unit :=
  withOptions makingTable words fun given operands => do
    if operands = [] then missingOperand
    else if let some mode? ← modeFor given then
      makeSpecials .pipe mode? "cannot create fifo " operands

/-- Makes a pipe with a name, or a device that is known by its numbers. -/
def mknod (words : List Octets) : Act Unit :=
  withOptions makingTable words fun given operands => do
    if let some mode? ← modeFor given then
      match operands with
      | [] => missingOperand
      | [path] => misused 1 (text "missing operand after " ++ Quote.always path)
      | [path, ['p']] => makeSpecials .pipe mode? "" [path]
      | _ :: ['p'] :: extra :: _ => do
        extraOperand extra
      | [path, ['c'], ['1'], minor] =>
        match minor with
        | ['3'] => makeSpecials .null mode? "" [path]
        | ['5'] => makeSpecials .zero mode? "" [path]
        | ['7'] => makeSpecials .full mode? "" [path]
        | _ => makeSpecials .random mode? "" [path]
      | _ :: kind :: _ => misused 1 (text "invalid device type " ++ Quote.always kind)

/-- Makes an empty file if nothing is there, and sets the time of what is there. -/
def touchAt (creates follows : Bool) (time? : Option Int) (path : Octets) : Act Unit := do
  let s ← get
  let set := fun (s : Session) (loc : Location) =>
    s.modifyWorld fun w => w.setTime loc (time?.getD (w.now / 4 * 4))
  match lookAt s follows path with
  | .ok ⟨loc, _⟩ => modify fun s => set s loc
  | .error e =>
    if !creates || !follows then
      if creates then failFor "setting times of " path e
      else if e != .notFound then failFor "setting times of " path e
    else
      match s.openPath path .append with
      | .ok (s, _) =>
        Act.setStatus s.status
        match lookAt s true path with
        | .ok ⟨loc, _⟩ => modify fun _ => set s loc
        | _ => modify fun _ => s
      | .error .isADirectory =>
        failFor "setting times of " path
          (if (lookAt s true path).isOk then .notADirectory else .notFound)
      | .error e =>
        if path.getLast? = some '/' && e != .notFound then failFor "setting times of " path e
        else failFor "cannot touch " path e

/-- The time that the options of `touch` ask for, if one can be told. -/
def touchTime (given : Given) : Act (Option (Option Int)) := do
  let s ← get
  match given.lastOf? ["d", "t", "r"] with
  | some "d" =>
    let word := (given.last? "d").getD []
    match Moment.read? s.toWorld.now word with
    | some t => return some (some t)
    | none =>
      failOn "invalid date format " word ""
      return none
  | some "t" =>
    let word := (given.last? "t").getD []
    match Moment.ofDigits? s.toWorld.now word with
    | some t => return some (some t)
    | none =>
      failOn "invalid date format " word ""
      return none
  | some _ =>
    let path := (given.last? "r").getD []
    match lookAt s true path with
    | .ok ⟨loc, _⟩ => return some (some (s.toWorld.timeOf loc))
    | .error e =>
      failFor "failed to get attributes of " path e
      return none
  | none => return some none

def touch (words : List Octets) : Act Unit :=
  let table := OptionTable.of "acd:fhmr:t:"
    [("date", "d", .required), ("no-create", "c", .nothing), ("no-dereference", "h", .nothing),
      ("reference", "r", .required), ("time", "time", .required)]
  withOptions table words fun given operands => do
    match ← touchTime given with
    | none => pure ()
    | some time? =>
      if operands = [] then misused 1 (text "missing file operand")
      for path in operands do
        if path != ['-'] then touchAt (!given.has "c") (!given.has "h") time? path

/-- How a size changes. -/
inductive Resize where
  | exactly
  | grow
  | shrink
  | atMost
  | atLeast
  | down
  | up
  deriving DecidableEq, Repr

/-- A size in the words of `truncate`. -/
def resize? (word : Octets) : Option (Resize × Nat) :=
  let word := word.dropWhile (· == ' ')
  let read := fun kind (rest : Octets) => (count? rest).map fun n => (kind, n)
  match word with
  | '+' :: rest => read .grow rest
  | '-' :: rest => read .shrink rest
  | '<' :: rest => read .atMost rest
  | '>' :: rest => read .atLeast rest
  | '/' :: rest => read .down rest
  | '%' :: rest => read .up rest
  | rest => read .exactly rest

def Resize.apply (r : Resize) (n old : Nat) : Nat :=
  match r with
  | .exactly => n
  | .grow => old + n
  | .shrink => old - n
  | .atMost => min old n
  | .atLeast => max old n
  | .down => old / n * n
  | .up => (old + n - 1) / n * n

/-- Cuts a file off, or fills it up with null bytes, at a size. -/
def setSize (loc : Location) (size : Nat) : Act Unit :=
  modify fun s => s.modifyWorld fun w =>
    match w.tree.get? loc with
    | some (.file bytes executable) =>
      let gap : ByteArray := ⟨(List.replicate (size - bytes.size) (0 : UInt8)).toArray⟩
      (w.putAt loc (.file (bytes.extract 0 size ++ gap) executable)).stamp loc
    | _ => w

def truncate (words : List Octets) : Act Unit :=
  let table := OptionTable.of "cor:s:"
    [("io-blocks", "o", .nothing), ("no-create", "c", .nothing), ("reference", "r", .required),
      ("size", "s", .required)]
  withOptions table words fun given operands => do
    let s ← get
    let wanted? : Option (Resize × Nat) :=
      match given.last? "s", given.last? "r" with
      | some word, _ => resize? word
      | none, some path =>
        match lookAt s true path with
        | .ok ⟨_, .file bytes _⟩ => some (.exactly, bytes.size)
        | _ => none
      | none, none => none
    if !given.has "s" && !given.has "r" then
      misused 1 (text "you must specify either '--size' or '--reference'")
    else if operands = [] then misused 1 (text "missing file operand")
    else
      match wanted? with
      | none =>
        if given.has "s" then failOn "Invalid number: " ((given.last? "s").getD []) ""
        else failFor "cannot stat " ((given.last? "r").getD []) .notFound
      | some (kind, n) =>
        for path in operands do
          let s ← get
          match lookAt s true path with
          | .ok ⟨loc, .file bytes _⟩ => setSize loc (kind.apply n bytes.size)
          | .ok ⟨_, .dir⟩ => failFor ("cannot open ") path .isADirectory
          | .ok _ => pure ()
          | .error e =>
            if given.has "c" && e = .notFound then pure ()
            else
              match s.openPath path .append with
              | .ok (s, stream) =>
                set s
                match (s.streams[stream]?).map (fun made : Stream => made.device) with
                | some (Device.file loc) => setSize loc (kind.apply n 0)
                | _ => pure ()
              | .error e =>
                fail (text "cannot open " ++ Quote.always path ++ text " for writing: " ++
                  text (errorText e))

/-- The letters that stand for the last marks of a name. -/
def fillMarks (number : Nat) (name : Octets) : Octets :=
  let marks := (name.reverse.takeWhile (· == 'X')).length
  let digits := Octets.ofNat (number * 7919 + 104729)
  let filled := (List.replicate marks 'a' ++ digits)
  name.take (name.length - marks) ++ filled.drop (filled.length - marks)

/-- Makes an empty file or directory whose name nothing else has. -/
def mktemp (words : List Octets) : Act Unit :=
  let table := OptionTable.of "dp:qtu"
    [("directory", "d", .nothing), ("dry-run", "u", .nothing), ("quiet", "q", .nothing),
      ("suffix", "suffix", .required), ("tmpdir", "tmpdir", .optional)]
  withOptions table words fun given operands => do
    let s ← get
    match operands with
    | _ :: _ :: _ => misused 1 (text "too many templates")
    | _ =>
      let template := operands.headD (text "tmp.XXXXXXXXXX")
      if 3 > (template.reverse.takeWhile (· == 'X')).length then
        failOn "too few X's in template " template ""
      else
        let place := (s.named "TMPDIR").getD (text "/tmp")
        let place? := if operands = [] || given.has "t" then some place
          else given.last? "p" <|> given.last? "tmpdir"
        let name := fillMarks s.process template ++ (given.last? "suffix").getD []
        let path := place?.elim name fun p => below (if p = [] then place else p) name
        let what := if given.has "d" then "failed to create directory via template "
          else "failed to create file via template "
        if given.has "u" then Act.putLine path
        else if given.has "d" then
          match ← makeDirectory path with
          | .ok () =>
            match lookAt (← get) true path with
            | .ok ⟨loc, _⟩ => modify fun s => s.modifyWorld fun w => w.setMode loc 0o700
            | _ => pure ()
            Act.putLine path
          | .error e => failFor what (place?.elim template fun p => below p template) e
        else
          match s.openPath path .write with
          | .ok (s, _) =>
            set s
            match lookAt s true path with
            | .ok ⟨loc, _⟩ => modify fun s => s.modifyWorld fun w => w.setMode loc 0o600
            | _ => pure ()
            Act.putLine path
          | .error e => failFor what (place?.elim template fun p => below p template) e

end BitcodeReplay.Tool
