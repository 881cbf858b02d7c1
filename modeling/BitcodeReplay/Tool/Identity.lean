import BitcodeReplay.Shell.Image
import BitcodeReplay.Tool.Entry
import BitcodeReplay.Tool.Moment

/-!
The tools that tell of the user, the system and the time.
-/

namespace BitcodeReplay.Tool

open Shell

def whoami (words : List Octets) : Act Unit :=
  withOptions (.of "" []) words fun _ operands => do
    match operands with
    | [] => Act.putLine (text "root")
    | extra :: _ => extraOperand extra

def identify (words : List Octets) : Act Unit :=
  let table := OptionTable.of "agGnruzZ"
    [("group", "g", .nothing), ("groups", "G", .nothing), ("name", "n", .nothing),
      ("real", "r", .nothing), ("user", "u", .nothing), ("zero", "z", .nothing)]
  withOptions table words fun given operands => do
    for user in operands do
      if user ≠ text "root" && user ≠ ['0'] then fail (Quote.always user ++ text ": no such user")
    if operands.all fun user => user = text "root" || user = ['0'] then
      if ["u", "g", "G"].any given.has then
        Act.putLine (text (if given.has "n" then "root" else "0"))
      else if given.has "n" then
        fail (text "cannot print only names or real IDs in default format")
      else Act.putLine (text "uid=0(root) gid=0(root) groups=0(root)")

def groups (words : List Octets) : Act Unit :=
  withOptions (.of "" []) words fun _ operands => do
    if operands = [] then Act.putLine (text "root")
    for user in operands do
      if user = text "root" then Act.putLine (text "root : root")
      else fail (Quote.always user ++ text ": no such user")

/-- What the system says of itself. -/
def systemFacts : List (String × String) :=
  [("s", "Linux"), ("n", "localhost"), ("r", "6.1.0"), ("v", "#1 SMP"), ("m", "x86_64"),
    ("p", "unknown"), ("i", "unknown"), ("o", "GNU/Linux")]

def uname (words : List Octets) : Act Unit :=
  let table := OptionTable.of "asnrvmpio"
    [("all", "a", .nothing), ("kernel-name", "s", .nothing), ("nodename", "n", .nothing),
      ("kernel-release", "r", .nothing), ("kernel-version", "v", .nothing),
      ("machine", "m", .nothing), ("operating-system", "o", .nothing)]
  withOptions table words fun given operands => do
    match operands with
    | extra :: _ => extraOperand extra
    | [] =>
      let chosen := systemFacts.filter fun fact =>
        if given.has "a" then fact.2 != "unknown"
        else if given = [] then fact.1 == "s"
        else given.has fact.1
      Act.putLine (List.intercalate [' '] (chosen.map fun fact => text fact.2))

def arch (words : List Octets) : Act Unit :=
  withOptions (.of "" []) words fun _ operands => do
    match operands with
    | extra :: _ => extraOperand extra
    | [] => Act.putLine (text "x86_64")

def nproc (words : List Octets) : Act Unit :=
  withOptions (.of "" [("all", "all", .nothing), ("ignore", "ignore", .required)]) words
    fun _ operands => do
      match operands with
      | extra :: _ => extraOperand extra
      | [] => Act.putLine (text "1")

def hostname (_ : List Octets) : Act Unit := Act.putLine (text "localhost")

def tty (words : List Octets) : Act Unit :=
  withOptionsOr 2 (.of "s" [("silent", "s", .nothing), ("quiet", "s", .nothing)]) words
    fun given operands => do
      match operands with
      | extra :: _ => misused 2 (text "extra operand " ++ Quote.always extra)
      | [] =>
        if !given.has "s" then Act.putLine (text "not a tty")
        Act.setStatus 1

/-- The paths of the programs of a name, in the order in which they are looked for. -/
def programsNamed (s : Session) (name : Octets) : List Octets :=
  let isProgram := fun path : Octets =>
    (Image.load s.tree s.directory path.toText).isOk ||
      (match Image.load s.tree s.directory path.toText with
        | .error .notExecutable => true
        | _ => false)
  if name.contains '/' then [name].filter isProgram
  else
    let places := ((s.named "PATH").getD []).splitOn ':'
    (places.map fun place => below (if place = [] then ['.'] else place) name).filter isProgram

def which (words : List Octets) : Act Unit := do
  let every := words.head? = some (text "-a")
  let names := if every then words.drop 1 else words
  if names = [] then Act.setStatus 1
  for name in names do
    match programsNamed (← get) name with
    | [] => Act.setStatus 1
    | first :: others =>
      Act.putLine first
      if every then putLines others

/-- Writes the time, or another moment. -/
def date (words : List Octets) : Act Unit :=
  let table := OptionTable.of "d:f:I::r:Rs:u"
    [("date", "d", .required), ("iso-8601", "I", .optional), ("reference", "r", .required),
      ("rfc-email", "R", .nothing), ("utc", "u", .nothing), ("universal", "u", .nothing),
      ("rfc-3339", "rfc", .required)]
  withOptions table words fun given operands => do
    let s ← get
    let format := match operands with
      | ('+' :: format) :: _ => format
      | _ =>
        match given.lastOf? ["I", "R", "rfc"] with
        | some "I" =>
          match (given.last? "I").getD [] with
          | 'h' :: _ => "%Y-%m-%dT%H+00:00".toList
          | 'm' :: _ => "%Y-%m-%dT%H:%M+00:00".toList
          | 's' :: _ => "%Y-%m-%dT%H:%M:%S+00:00".toList
          | 'n' :: _ => "%Y-%m-%dT%H:%M:%S,%N+00:00".toList
          | _ => "%Y-%m-%d".toList
        | some "R" => "%a, %d %b %Y %H:%M:%S %z".toList
        | some _ =>
          if (given.last? "rfc").getD [] = text "date" then "%Y-%m-%d".toList
          else "%Y-%m-%d %H:%M:%S+00:00".toList
        | none => "%a %b %e %H:%M:%S UTC %Y".toList
    match operands with
    | _ :: extra :: _ => extraOperand extra
    | [('+' :: _)] | [] =>
      match given.lastOf? ["d", "r"] with
      | some "d" =>
        let word := (given.last? "d").getD []
        match Moment.read? s.toWorld.now word with
        | some t => Act.putLine ((Moment.ofMillis t).write format)
        | none => failOn "invalid date " word ""
      | some _ =>
        let path := (given.last? "r").getD []
        match lookAt s true path with
        | .ok ⟨loc, _⟩ =>
          Act.putLine ((Moment.ofMillis (s.toWorld.timeOf loc)).write format)
        | .error e => fail (Quote.ifNeeded path ++ text (": " ++ errorText e))
      | none => Act.putLine ((Moment.ofMillis s.toWorld.now).write format)
    | [word] => failOn "invalid date " word ""

end BitcodeReplay.Tool
