import BitcodeReplay.Shell.OptionWords
import BitcodeReplay.Shell.Permissions

/-!
The builtins that work on the directory of the shell and on the mask for new files. The directory has
a name that keeps the links through which it was entered.
-/

namespace BitcodeReplay.Shell.Builtin

open Act

/-- What an absolute path starts with: two slashes, if there are just as many, and otherwise one. -/
def rootOf (path : String) : String :=
  if (path.toList.takeWhile (· == '/')).length = 2 then "//" else "/"

/-- Follows a path from a directory by names alone. -/
def follow (base path : String) : String :=
  let names := fun text : String =>
    ((text.toList.splitOn '/').filter fun n => n ≠ [] ∧ n ≠ ['.']).map String.ofList
  let isAbsolute := Path.isAbsolute path
  let start := if isAbsolute then [] else names base
  rootOf (if isAbsolute then path else base) ++ String.intercalate "/" ((names path).foldl
    (fun known name => if name = ".." then known.dropLast else known ++ [name]) start)

/-- Enters a directory, named by links or, if `physical` is set, without them. -/
def enter (physical : Bool) (path : Octets) (s : Session) : Option Session :=
  let logical := follow s.logical path.toText
  let target := if physical then s.place path else logical
  match s.tree.find? target with
  | some (loc, .dir) =>
    let directory := "/" ++ String.intercalate "/" loc
    let logical := if physical then directory else logical
    let old := Octets.ofText s.logical
    let note := fun (s : Session) (name : String) (value : Octets) =>
      (s.assign name.toList value).mark name.toList fun v => { v with exported := true }
    let s := { s with directory := directory, logical := logical }
    some (note (note s "OLDPWD" old) "PWD" (Octets.ofText logical))
  | _ => none

/-- The paths at which a directory is looked for, each with whether it is to be told. -/
def candidates (s : Session) (path : Octets) : List (Octets × Bool) :=
  let here := match path with
    | '/' :: _ | ['.'] | '.' :: '/' :: _ | ['.', '.'] | '.' :: '.' :: '/' :: _ => true
    | _ => false
  match here, s.named "CDPATH" with
  | false, some places =>
    let found := (places.splitOn ':').filterMap fun place =>
      let full := if place = [] then path else place ++ '/' :: path
      if s.tree.isDir (s.place full) then some (full, place != []) else none
    found.take 1 ++ [(path, false)]
  | _, _ => [(path, false)]

def changeDirectory (words : List Octets) : Act Unit := do
  match ← options "LP" words with
  | none => pure ()
  | some (given, operands) =>
    let s ← get
    let physical := given.getLast?.any fun p => p.1 == 'P'
    let back := operands.head? = some ['-']
    let wanted : Octets := match operands with
      | [] => (s.named "HOME").getD []
      | ['-'] :: _ => (s.named "OLDPWD").getD []
      | path :: _ => path
    let found := candidates s (if wanted = [] then ['.'] else wanted)
    let (path, told) := found.headD (wanted, false)
    match enter physical path s with
    | some after =>
      set { after with status := 0 }
      if told || back then putLine (Octets.ofText after.logical)
    | none => abort ("can't cd to " ++ wanted.toText)

def printDirectory (words : List Octets) : Act Unit := do
  match ← options "LP" words with
  | none => pure ()
  | some (given, _) =>
    setStatus 0
    let s ← get
    let physical := given.getLast?.any fun p => p.1 == 'P'
    putLine (Octets.ofText (if physical then s.directory else s.logical))

/-- Shows or sets the permissions that new files do not get. -/
def maskFiles (words : List Octets) : Act Unit := do
  match ← options "S" words with
  | none => pure ()
  | some (given, operands) =>
    setStatus 0
    let s ← get
    let allowed := Permissions.without 0o777 s.umask
    match operands with
    | [] =>
      putLine (if given = [] then Permissions.octal s.umask else Permissions.clauses allowed)
    | text :: _ =>
      if text.head?.any Text.isDigit then
        match Permissions.changed? false 0 text 0 with
        | some mask => set { s with umask := mask &&& 0o777 }
        | none => abort ("Illegal number: " ++ text.toText)
      else
        match Permissions.changed? false 0 text allowed with
        | some bits => set { s with umask := Permissions.without 0o777 bits }
        | none => abort ("Illegal mode: " ++ text.toText)

end BitcodeReplay.Shell.Builtin
