import BitcodeReplay.Shell.Field
import BitcodeReplay.Shell.OptionWords
import BitcodeReplay.Shell.Session

/-!
The builtins that work on variables, on arguments and on the options of the shell.
-/

namespace BitcodeReplay.Shell.Builtin

open Act

/-- The name and the value of a word such as `name=value`. -/
def nameAndValue (word : Octets) : Octets × Option Octets :=
  let name := word.takeWhile (· != '=')
  match word.drop name.length with
  | _ :: value => (name, some value)
  | [] => (name, none)

def isName (text : Octets) : Bool :=
  text.head?.any Arithmetic.isNameStart && text.all Arithmetic.isNameChar

/-- Does something with a name, which has to be one. -/
def withName (name : Octets) (change : Session → Session) : Act Unit := do
  if (← get).flow = .running then
    if isName name then modify change else abort (name.toText ++ ": bad variable name")

/-- Lists the variables that are marked, or marks some and gives them values. -/
def declare (program : String) (isMarked : Variable → Bool) (mark : Variable → Variable)
    (words : List Octets) : Act Unit := do
  match ← options "p" words with
  | none => pure ()
  | some (given, operands) =>
    setStatus 0
    if given ≠ [] || operands = [] then
      let marked := (← get).bindings.filter fun p => isMarked p.2
      for line in Listing.bindingLines (Octets.ofText (program ++ " ")) marked do
        putLine line
    else
      for word in operands do
        let (name, value) := nameAndValue word
        withName name fun s =>
          let s := match value with
            | some value => s.assign name value
            | none => s
          if s.flow = .running then s.mark name mark else s

def exportNames : List Octets → Act Unit :=
  declare "export" (·.exported) fun v => { v with exported := true }

def makeConstant : List Octets → Act Unit :=
  declare "readonly" (·.constant) fun v => { v with constant := true }

/-- Keeps what a name has outside the current function, unless that has been done. -/
def keepLocal (s : Session) (name : Octets) : Session :=
  match s.locals with
  | some kept =>
    if kept.any fun p => p.1 == name then s
    else { s with locals := some ((name, s.bound? name) :: kept) }
  | none => s

/-- Makes variables, or with a dash the options, local to the current function. -/
def makeLocal (words : List Octets) : Act Unit := do
  if (← get).locals.isNone then abort "not in a function"
  else
    setStatus 0
    for word in words do
      if word = ['-'] then
        modify fun s => { s with outerOptions := s.outerOptions <|> some s.options }
      else
        let (name, value) := nameAndValue word
        withName name fun s =>
          let s := keepLocal s name
          match value with
          | some value => s.assign name value
          | none => if (s.bound? name).isNone then s.mark name id else s

def unset (words : List Octets) : Act Unit := do
  match ← options "vf" words with
  | none => pure ()
  | some (given, operands) =>
    setStatus 0
    for name in operands do
      if given.getLast?.any fun p => p.1 == 'f' then
        modify fun s => { s with functions := s.functions.filter fun p => p.1 != name }
      else withName name fun s => s.unset name

/-- The names of the options, with the letters of those that have one, in the order in which they are
listed. -/
def optionNames : List (String × Option Char) :=
  [("errexit", some 'e'), ("noglob", some 'f'), ("ignoreeof", some 'I'), ("interactive", some 'i'),
    ("monitor", some 'm'), ("noexec", some 'n'), ("stdin", some 's'), ("xtrace", some 'x'),
    ("verbose", some 'v'), ("vi", some 'V'), ("emacs", some 'E'), ("noclobber", some 'C'),
    ("allexport", some 'a'), ("notify", some 'b'), ("nounset", some 'u'), ("privileged", some 'p'),
    ("nolog", none), ("debug", none)]

/-- Sets or clears an option. Jobs cannot be controlled where there is no terminal. -/
def setLetter (value : Bool) (letter : Char) : Act Unit := do
  if value && letter = 'm' then modify (·.complain "can't access tty; job control turned off")
  else if optionNames.any fun p => p.2 == some letter then
    modify fun s =>
      let others := s.options.filter fun c =>
        c != letter && !(value && letter == 'V' && c == 'E') && !(value && letter == 'E' && c == 'V')
      { s with options := if value then letter :: others else others }
  else abort ("Illegal option -" ++ String.singleton letter)

/-- Lists the options, as text to read or as commands. -/
def listOptions (readable : Bool) : Act Unit := do
  let s ← get
  if readable then putLine (Octets.ofText "Current option settings")
  for (name, letter) in optionNames do
    let isSet := letter.any s.has
    if readable then
      let gap := String.ofList (List.replicate (16 - name.length) ' ')
      putLine (Octets.ofText (name ++ gap ++ if isSet then "on" else "off"))
    else putLine (Octets.ofText ("set " ++ (if isSet then "-o " else "+o ") ++ name))

/-- Sets or clears the option of a name, or lists all. -/
def setNamed (value : Bool) : Option Octets → Act Unit
  | none => listOptions value
  | some name =>
    match optionNames.lookup name.toText with
    | some (some letter) => setLetter value letter
    | some none => pure ()
    | none => abort ("Illegal option -o " ++ name.toText)

/-- Sets the options of a word of letters; what is left of the words behind it. -/
def setLetters (value : Bool) : Octets → List Octets → Act (List Octets)
  | [], words => return words
  | 'o' :: letters, words => do
    setNamed value words.head?
    setLetters value letters (words.drop 1)
  | letter :: letters, words => do
    setLetter value letter
    if (← get).flow = .running then setLetters value letters words else return []

def setArguments (words : List Octets) : Act Unit :=
  modify fun s => { s with arguments := words, optionIndex := 1, optionOffset := none }

/-- Sets options, and the arguments if there are any. The first argument bounds the number of
words. -/
def setWords : Nat → List Octets → Act Unit
  | 0, _ => pure ()
  | bound + 1, words => do
    match words with
    | [] => pure ()
    | ['-'] :: rest =>
      modify fun s => { s with options := s.options.filter fun c => c != 'x' && c != 'v' }
      if rest ≠ [] then setArguments rest
    | ['-', '-'] :: rest => setArguments rest
    | ('-' :: letters) :: rest => setWords bound (← setLetters true letters rest)
    | ('+' :: letters) :: rest => setWords bound (← setLetters false letters rest)
    | rest => setArguments rest

def setOptions (words : List Octets) : Act Unit := do
  setStatus 0
  if words = [] then
    let s ← get
    for line in Listing.bindingLines [] (s.bindings.filter fun p => p.2.value.isSome) do
      putLine line
  else setWords (words.length + 1) words

/-- What has been read of a line: its pieces, how many bytes were taken for them, and whether a line
feed ended it. A character that a backslash quotes does not separate. -/
structure Line where
  pieces : List Piece
  taken : Nat
  ended : Bool

/-- Reads a line up to its line feed. The first two arguments are what has been read of the current
piece and how much has been taken. -/
def inputLine (raw : Bool) (current : Octets) (taken : Nat) : Octets → Line
  | [] => ⟨[.loose current.reverse], taken, false⟩
  | '\n' :: _ => ⟨[.loose current.reverse], taken + 1, true⟩
  | '\x00' :: rest => inputLine raw current (taken + 1) rest
  | '\\' :: rest =>
    if raw then inputLine raw ('\\' :: current) (taken + 1) rest
    else
      match rest with
      | [] => ⟨[.loose current.reverse], taken + 1, false⟩
      | '\n' :: rest =>
        let line := inputLine raw [] (taken + 2) rest
        { line with pieces := .loose current.reverse :: line.pieces }
      | c :: rest =>
        let line := inputLine raw [] (taken + 2) rest
        { line with pieces := .loose current.reverse :: .fixed [c] true :: line.pieces }
  | c :: rest => inputLine raw (c :: current) (taken + 1) rest

/-- Waits for the next line of the input. One that goes on behind a line feed takes several lines; the
first argument bounds how many more there are than are looked at. -/
def awaitLine (raw : Bool) : Nat → Nat → Act Line
  | 0, count => return inputLine raw [] 0 ((← get).peekLines 0 count)
  | bound + 1, count => do
    awaitLines 0 count
    let found := (← get).peekLines 0 count
    let line := inputLine raw [] 0 found
    if line.ended || (found.filter (· == '\n')).length < count then return line
    else awaitLine raw bound (count + 1)

/-- Reads a line and cuts it into as many fields as there are names. The last takes all that is
left. -/
def readLine (words : List Octets) : Act Unit := do
  match ← options "p:r" words with
  | none => pure ()
  | some (given, names) =>
    if names = [] then abort "arg count"
    else
      let line ← awaitLine (given.any fun p => p.1 == 'r') endless 1
      let s ← get
      set ({ s with status := if line.ended then 0 else 1 }.skip 0 line.taken)
      let values := (Field.split s.separators (some names.length) line.pieces).map Field.text
      let values := values ++ List.replicate (names.length - values.length) []
      for (name, value) in names.zip values do
        withName name fun s => s.assign name value

/-- The next option of some words: what it is and its argument, how many words have been read and how
far the last of them, and what is to be said if something is wrong. -/
structure NextOption where
  letter : Option Char
  argument : Option Octets
  index : Nat
  offset : Option Nat
  complaint : Option String

/-- Reads the next option. The word before the one of number `index` is read on behind `offset`
characters. -/
def nextOption (allowed : Octets) (words : List Octets) (index : Nat) (offset : Option Nat) :
    NextOption :=
  let silent := allowed.head? = some ':'
  let letters := fun (group : Octets) (read index : Nat) =>
    match group with
    | [] => NextOption.mk none none index none none
    | c :: rest =>
      let goesOn := if rest = [] then none else some (read + 1)
      match OptionWords.takesArgument? allowed c with
      | none =>
        if silent then ⟨some '?', some [c], index, goesOn, none⟩
        else ⟨some '?', none, index, goesOn, some ("Illegal option -" ++ String.singleton c)⟩
      | some false => ⟨some c, some [], index, goesOn, none⟩
      | some true =>
        if rest ≠ [] then ⟨some c, some rest, index, none, none⟩
        else
          match words.drop (index - 1) with
          | argument :: _ => ⟨some c, some argument, index + 1, none, none⟩
          | [] =>
            if silent then ⟨some ':', some [c], index, none, none⟩
            else
              ⟨some '?', none, index, none, some ("No arg for -" ++ String.singleton c ++ " option")⟩
  let started := match offset with
    | some n =>
      let group := ((words.drop (index - 2)).headD []).drop n
      if 1 < index && group ≠ [] then some (group, n) else none
    | none => none
  match started with
  | some (group, n) => letters group n index
  | none =>
    match words.drop (index - 1) with
    | ['-', '-'] :: _ => ⟨none, none, index + 1, none, none⟩
    | ('-' :: c :: rest) :: _ => letters (c :: rest) 1 (index + 1)
    | _ => ⟨none, none, index, none, none⟩

/-- Reads the next option of the arguments, or of the words that are given. -/
def getOption (words : List Octets) : Act Unit := do
  match ← operands words with
  | some (allowed :: name :: given) =>
    let s ← get
    let among := if given = [] then s.arguments else given
    let isOver := among.length + 1 < s.optionIndex
    let next := nextOption allowed among (if isOver then 1 else s.optionIndex)
      (if isOver then none else s.optionOffset)
    match next.complaint with
    | some text => modify (·.report (Octets.ofText (text ++ "\n")))
    | none => pure ()
    modify fun s =>
      let s := match next.argument, next.complaint with
        | some argument, _ => s.assign "OPTARG".toList argument
        | none, some _ => s.unset "OPTARG".toList
        | none, none => s
      let s := s.assign "OPTIND".toList (.ofNat next.index)
      { s with
        optionIndex := next.index
        optionOffset := next.offset
        status := if next.letter.isNone then 1 else 0 }
    withName name fun s => s.assign name [next.letter.getD '?']
  | some _ => abort "Usage: getopts optstring var [arg...]"
  | none => pure ()

end BitcodeReplay.Shell.Builtin
