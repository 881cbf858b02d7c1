import BitcodeReplay.Shell.Format
import BitcodeReplay.Shell.Pattern
import BitcodeReplay.Text.RegexSyntax
import BitcodeReplay.Tool.Directory
import BitcodeReplay.Tool.Starting

/-!
The tool that looks for entries below some paths and does something with those that satisfy a
condition.
-/

namespace BitcodeReplay.Tool

open Shell

namespace Find

/-- How a number is compared. -/
inductive Comparison where
  | less
  | equal
  | more
  deriving DecidableEq, Repr

def Comparison.holds (c : Comparison) (n : Nat) (value : Int) : Bool :=
  match c with
  | .less => value < n
  | .equal => value == n
  | .more => n < value

/-- Which of the permissions asked for have to be there. -/
inductive Share where
  | exactly
  | all
  | any
  deriving DecidableEq, Repr

/-- A condition on an entry, or something to do with it. -/
inductive Condition where
  | constant (value : Bool)
  | name (pattern : Octets) (folds : Bool)
  | path (pattern : Octets) (folds : Bool)
  | goal (pattern : Octets)
  | regex (r : Text.Regex) (folds : Bool)
  | kind (letters : Octets)
  | size (c : Comparison) (n unit : Nat)
  | empty
  | newer (time : Int)
  | age (c : Comparison) (n : Nat) (unit : Nat)
  | mode (share : Share) (bits : Nat)
  | places (c : Comparison) (n : Nat)
  | sameFile (loc : Location)
  | print (ending : Char)
  | format (text : Octets) (stream : Option Nat)
  | list
  | delete
  | prune
  | quit
  | run (inside : Bool) (words : List Octets)
  | collect (number : Nat) (words : List Octets)
  | ask (words : List Octets)
  | negated (c : Condition)
  | both (a b : Condition)
  | either (a b : Condition)
  | after (a b : Condition)

/-- Whether something is done besides deciding. -/
def Condition.acts : Condition → Bool
  | .print _ | .format _ _ | .list | .delete | .run _ _ | .collect _ _ | .ask _ => true
  | .negated c => c.acts
  | .both a b | .either a b | .after a b => a.acts || b.acts
  | _ => false

/-- How far and in which order the tree is searched. -/
structure Search where
  deepest : Option Nat
  shallowest : Nat
  depthFirst : Bool
  pruned : Bool
  batches : Nat

/-- Why an expression cannot be read. -/
inductive Failure where
  | unknownPredicate (word : Octets)
  | missingArgument (word : Octets)
  | unknownType (letters : Octets)
  | typeSeparator
  | notPositive (word value : Octets)
  | invalidSize (value : Octets)
  | invalidArgument (word value : Octets)
  | invalidMode (value : Octets)
  | missing (path : Octets) (e : FileError)
  | nothingBefore (word : Octets)
  | nothingAfter (word : Octets)
  | emptyGroup
  | openGroup
  | strayWord (word : Octets) (isThere : Bool)
  | strayClosing
  deriving DecidableEq, Repr

/-- A word in the quotes of older messages. -/
def inQuotes (word : Octets) : Octets := '\x60' :: word ++ ['\'']

def plainQuotes (word : Octets) : Octets := '\'' :: word ++ ['\'']

def Failure.messages : Failure → List Octets
  | .unknownPredicate word => [text "unknown predicate " ++ inQuotes word]
  | .missingArgument word => [text "missing argument to " ++ inQuotes word]
  | .unknownType letters => [text "Unknown argument to -type: " ++ letters]
  | .typeSeparator => [text "Last file type in list argument to -type is missing"]
  | .notPositive word value =>
    [text "Expected a positive decimal integer argument to " ++ word ++ text ", but got " ++
      plainQuotes value]
  | .invalidSize value => [text "invalid -size type " ++ inQuotes value]
  | .invalidArgument word value =>
    [text "invalid argument " ++ inQuotes value ++ text " to " ++ inQuotes word]
  | .invalidMode value => [text "invalid mode " ++ plainQuotes value]
  | .missing path e => [plainQuotes path ++ text (": " ++ errorText e)]
  | .nothingBefore word =>
    [text "invalid expression; you have used a binary operator " ++ plainQuotes word ++
      text " with nothing before it."]
  | .nothingAfter word => [text "expected an expression after " ++ plainQuotes word]
  | .emptyGroup => [text "invalid expression; empty parentheses are not allowed."]
  | .openGroup =>
    [text "invalid expression; I was expecting to find a ')' somewhere but did not see one."]
  | .strayClosing => [text "invalid expression; you have too many ')'"]
  | .strayWord word isThere =>
    (text "paths must precede expression: " ++ inQuotes word) ::
      if isThere then [text "possible unquoted pattern after predicate " ++ inQuotes (text "-name") ++
        ['?']] else []

/-- The rest of an expression, with what it has set on the way. -/
structure Reading where
  words : List Octets
  search : Search
  session : Session

abbrev Scan := StateT Reading (Except Failure)

/-- The argument of a word. -/
def argument (word : Octets) : Scan Octets := do
  match (← get).words with
  | [] => throw (.missingArgument word)
  | found :: rest =>
    modify fun r => { r with words := rest }
    return found

/-- A number with what it is compared by, and what follows it. -/
def compared (value : Octets) : Comparison × Octets :=
  match value with
  | '+' :: rest => (.more, rest)
  | '-' :: rest => (.less, rest)
  | rest => (.equal, rest)

def numberArgument (word : Octets) : Scan (Comparison × Nat) := do
  let value ← argument word
  let (c, digits) := compared value
  match decimal? digits with
  | some n => return (c, n)
  | none => throw (.invalidArgument word value)

def sizeUnit? : Octets → Option Nat
  | [] | ['b'] => some 512
  | ['c'] => some 1
  | ['w'] => some 2
  | ['k'] => some 1024
  | ['M'] => some 1048576
  | ['G'] => some 1073741824
  | _ => none

def depthArgument (word : Octets) : Scan Nat := do
  let value ← argument word
  match decimal? value with
  | some n => return n
  | none => throw (.notPositive word value)

/-- The time of an entry that a word names. -/
def timeOf (path : Octets) : Scan Int := do
  let s := (← get).session
  match lookAt s true path with
  | .ok ⟨loc, _⟩ => return s.toWorld.timeOf loc
  | .error e => throw (.missing path e)

/-- The words of a command up to what ends it, and whether that is a plus. -/
def command (word : Octets) : List Octets → List Octets → Option (List Octets × Bool × List Octets)
  | _, [] => none
  | found, [';'] :: rest => if found = [] then none else some (found.reverse, false, rest)
  | found, w :: ['+'] :: rest =>
    if w = ['\x7b', '\x7d'] then some ((w :: found).reverse, true, rest)
    else command word (w :: found) (['+'] :: rest)
  | found, w :: rest => command word (w :: found) rest

def commandOf (word : Octets) (inside : Bool) : Scan Condition := do
  let r ← get
  match command word [] r.words with
  | none => throw (.missingArgument word)
  | some (words, false, rest) =>
    set { r with words := rest }
    return .run inside words
  | some (words, true, rest) =>
    let number := r.search.batches
    set { r with words := rest, search := { r.search with batches := number + 1 } }
    return .collect number words.dropLast

def setSearch (change : Search → Search) : Scan Condition := do
  modify fun r => { r with search := change r.search }
  return .constant true

/-- One condition that starts with a word. -/
def single (word : Octets) : Scan Condition := do
  match word.toText with
  | "-name" => return .name (← argument word) false
  | "-iname" => return .name (← argument word) true
  | "-path" | "-wholename" => return .path (← argument word) false
  | "-ipath" | "-iwholename" => return .path (← argument word) true
  | "-lname" => return .goal (← argument word)
  | "-regex" | "-iregex" =>
    let pattern ← argument word
    match Text.Regex.read ⟨false, false⟩ pattern with
    | .ok r => return .regex r (word = text "-iregex")
    | .error _ => throw (.invalidArgument word pattern)
  | "-type" =>
    let letters ← argument word
    let parts := letters.splitOn ','
    match parts.find? fun p => p.length != 1 || !p.all ['f', 'd', 'l', 'c', 'b', 'p', 's'].contains with
    | some [] => throw .typeSeparator
    | some p => throw (.unknownType p)
    | none => return .kind parts.flatten
  | "-size" =>
    let value ← argument word
    let (c, rest) := compared value
    let digits := rest.takeWhile Text.isDigit
    match decimal? digits, sizeUnit? (rest.drop digits.length) with
    | some n, some unit => return .size c n unit
    | _, _ => throw (.invalidSize value)
  | "-empty" => return .empty
  | "-newer" | "-mnewer" | "-newermm" => return .newer (← timeOf (← argument word))
  | "-mtime" | "-atime" | "-ctime" =>
    let (c, n) ← numberArgument word
    return .age c n 86400000
  | "-mmin" | "-amin" | "-cmin" =>
    let (c, n) ← numberArgument word
    return .age c n 60000
  | "-links" =>
    let (c, n) ← numberArgument word
    return .places c n
  | "-perm" =>
    let value ← argument word
    let (share, rest) := match value with
      | '-' :: rest => (Share.all, rest)
      | '/' :: rest => (Share.any, rest)
      | rest => (Share.exactly, rest)
    match Permissions.changed? false 0 rest 0 with
    | some bits => return .mode share bits
    | none => throw (.invalidMode value)
  | "-samefile" =>
    let path ← argument word
    match lookAt (← get).session false path with
    | .ok ⟨loc, _⟩ => return .sameFile loc
    | .error e => throw (.missing path e)
  | "-user" | "-group" | "-uid" | "-gid" =>
    let value ← argument word
    return .constant (value = text "root" || value = ['0'])
  | "-nouser" | "-nogroup" | "-false" => return .constant false
  | "-true" | "-readable" | "-writable" => return .constant true
  | "-executable" => return .mode .any 0o111
  | "-noleaf" | "-mount" | "-xdev" | "-daystart" | "-ignore_readdir_race" | "-nowarn" | "-warn" |
    "-follow" => return .constant true
  | "-depth" | "-d" => setSearch fun p => { p with depthFirst := true }
  | "-maxdepth" =>
    let n ← depthArgument word
    setSearch fun p => { p with deepest := some n }
  | "-mindepth" =>
    let n ← depthArgument word
    setSearch fun p => { p with shallowest := n }
  | "-regextype" =>
    let _ ← argument word
    return .constant true
  | "-print" => return .print '\n'
  | "-print0" => return .print '\x00'
  | "-printf" => return .format (← argument word) none
  | "-ls" => return .list
  | "-delete" =>
    let _ ← setSearch fun p => { p with depthFirst := true }
    return .delete
  | "-prune" =>
    let _ ← setSearch fun p => { p with pruned := true }
    return .prune
  | "-quit" => return .quit
  | "-exec" => commandOf word false
  | "-execdir" => commandOf word true
  | "-ok" =>
    let r ← get
    match command word [] r.words with
    | some (words, _, rest) =>
      set { r with words := rest }
      return .ask words
    | none => throw (.missingArgument word)
  | _ =>
    if word.head? = some '-' then throw (.unknownPredicate word)
    else
      throw (.strayWord word
        (lookAt (← get).session false word).isOk)

def isAnd (word : Octets) : Bool := word = text "-a" || word = text "-and"

def isOr (word : Octets) : Bool := word = text "-o" || word = text "-or"

def next? : Scan (Option Octets) := return (← get).words.head?

def advance : Scan Unit := modify fun r => { r with words := r.words.drop 1 }

mutual

/-- Conditions with commas between them, inside as many groups as given. -/
def sequence : Nat → Nat → Scan Condition
  | 0, _ => throw .openGroup
  | fuel + 1, depth => do
    let first ← choice fuel depth
    if (← next?) = some [','] then
      advance
      return .after first (← sequence fuel depth)
    else return first

def choice : Nat → Nat → Scan Condition
  | 0, _ => throw .openGroup
  | fuel + 1, depth => do
    let first ← conjunction fuel depth
    match ← next? with
    | some word =>
      if isOr word then
        advance
        if (← next?).isNone then throw (.nothingAfter word)
        return .either first (← choice fuel depth)
      else return first
    | none => return first

def conjunction : Nat → Nat → Scan Condition
  | 0, _ => throw .openGroup
  | fuel + 1, depth => do
    let first ← primary fuel depth
    match ← next? with
    | none => return first
    | some word =>
      if isAnd word then
        advance
        if (← next?).isNone then throw (.nothingAfter word)
        return .both first (← conjunction fuel depth)
      else if isOr word || word = [','] || (word = [')'] && depth > 0) then return first
      else return .both first (← conjunction fuel depth)

def primary : Nat → Nat → Scan Condition
  | 0, _ => throw .openGroup
  | fuel + 1, depth => do
    match ← next? with
    | none => throw .openGroup
    | some word =>
      advance
      if word = ['!'] || word = text "-not" then
        if (← next?).isNone then throw (.nothingAfter word)
        return .negated (← primary fuel depth)
      else if word = ['('] then
        if (← next?) = some [')'] then throw .emptyGroup
        if (← next?).isNone then throw .openGroup
        let inner ← sequence fuel (depth + 1)
        if (← next?) = some [')'] then
          advance
          return inner
        else throw .openGroup
      else if isAnd word || isOr word || word = [','] then throw (.nothingBefore word)
      else if word = [')'] then throw .strayClosing
      else single word

end

/-- An entry that has been found: its path, the path that the search has started with, and its depth. -/
structure Item where
  path : Octets
  start : Octets
  depth : Nat
  thing : Thing

def Item.row (i : Item) : Row := ⟨lastName i.path, i.path, i.thing⟩

/-- What is known while a search goes on: the commands that wait for more words, whether what is below
the current entry is left out, and whether the search is over. -/
structure Progress where
  batches : List (Nat × List Octets × List Octets)
  pruned : Bool
  finished : Bool

abbrev Walk := StateT Progress Act

def act {α : Type} (a : Act α) : Walk α := StateT.lift a

/-- The mode of an entry and other facts in a format. The first argument bounds the steps. -/
def inFormat (s : Session) (i : Item) : Nat → Octets → Octets
  | 0, _ => []
  | _ + 1, [] => []
  | bound + 1, '%' :: rest =>
    let flags := rest.takeWhile fun c => ['-', '0', ' ', '+', '#'].contains c
    let rest := rest.drop flags.length
    let width := rest.takeWhile Text.isDigit
    let rest := rest.drop width.length
    let n := Arithmetic.digitsValue 10 width
    let sized := fun shown : Octets =>
      if flags.contains '-' then leftAligned n shown else rightAligned n shown
    let time := Moment.ofMillis (i.row.time s)
    let more := fun shown rest => sized shown ++ inFormat s i bound rest
    match rest with
    | [] => ['%']
    | '%' :: rest => '%' :: inFormat s i bound rest
    | 'p' :: rest => more i.path rest
    | 'f' :: rest => more (lastName i.path) rest
    | 'h' :: rest =>
      let above := directoryName i.path
      more (if i.path.contains '/' then above else ['.']) rest
    | 'P' :: rest => more ((i.path.drop i.start.length).dropWhile (· == '/')) rest
    | 'H' :: rest => more i.start rest
    | 'd' :: rest => more (Octets.ofNat i.depth) rest
    | 's' :: rest => more (Octets.ofNat i.row.size) rest
    | 'm' :: rest => more (Nat.toDigits 8 (i.thing.mode s)) rest
    | 'M' :: rest => more (i.thing.letter :: modeLetters (i.thing.mode s)) rest
    | 'y' :: rest => more [if i.thing.letter = '-' then 'f' else i.thing.letter] rest
    | 'l' :: rest =>
      more (match i.thing with
        | ⟨_, .link target⟩ => Octets.ofText target
        | _ => []) rest
    | 'u' :: rest | 'g' :: rest => more (text "root") rest
    | 'U' :: rest | 'G' :: rest => more ['0'] rest
    | 'n' :: rest =>
      more (match i.thing with
        | ⟨loc, e⟩ => Octets.ofNat (placeCount s loc e)) rest
    | 'i' :: rest => more (Octets.ofNat (i.row.inode s)) rest
    | 'b' :: rest => more (Octets.ofNat (i.row.blocks * 2)) rest
    | 'k' :: rest => more (Octets.ofNat i.row.blocks) rest
    | 't' :: rest => more (time.write "%a %b %e %H:%M:%S.%N0 %Y".toList) rest
    | 'T' :: '@' :: rest => more (time.write "%s.%N0".toList) rest
    | 'T' :: c :: rest => more (time.write ['%', c]) rest
    | c :: rest => '%' :: c :: inFormat s i bound rest
  | _ + 1, '\\' :: 'c' :: _ => []
  | bound + 1, '\\' :: rest =>
    let (shown, rest) := Format.escape .builtin rest
    shown ++ inFormat s i bound rest
  | bound + 1, c :: rest => c :: inFormat s i bound rest

/-- Runs a command as a process of its own, and tells whether it succeeds. -/
def succeeds (start : Starter) (words : List Octets) : Act Bool := do
  let name := words.headD []
  let before ← get
  let ending ← forked do
    match ← start name (words.drop 1) with
    | .ok () => pure ()
    | .error e => fail (plainQuotes name ++ text (": " ++ errorText e))
  Act.setStatus before.status
  match ending with
  | .signal n =>
    say (plainQuotes name ++ text " terminated by signal " ++ Octets.ofNat n)
    return false
  | .status n => return n = 0

/-- Puts a path in the place of each pair of braces. -/
def filled (path : Octets) (words : List Octets) : List Octets :=
  words.map fun w => substitute ['\x7b', '\x7d'] path (w.length + 1) w

/-- Removes an entry, and tells whether it is gone. -/
def remove (i : Item) : Act Bool := do
  let s ← get
  match i.thing with
  | ⟨loc, e⟩ =>
    if i.path = ['.'] || loc = [] then return true
    if e = .dir && s.tree.namesIn loc ≠ [] then
      fail (text "cannot delete " ++ plainQuotes i.path ++ text (": " ++ errorText .notEmpty))
      return false
    set (s.modifyWorld fun w => w.erase loc)
    return true

def folded (folds : Bool) (t : Octets) : Octets := if folds then t.map Char.toLower else t

/-- Whether an entry satisfies a condition, with all that is done on the way. -/
def holds (start : Starter) (i : Item) : Condition → Walk Bool
  | .constant value => return value
  | .name pattern folds =>
    return (Pattern.ofText (folded folds pattern)).accepts (folded folds (lastName i.path))
  | .path pattern folds =>
    return (Pattern.ofText (folded folds pattern)).accepts (folded folds i.path)
  | .goal pattern => do
    match i.thing with
    | ⟨_, .link target⟩ => return (Pattern.ofText pattern).accepts (Octets.ofText target)
    | _ => return false
  | .regex r folds => return r.covers ⟨folds, false⟩ i.path.toArray
  | .kind letters =>
    return letters.contains (if i.thing.letter = '-' then 'f' else i.thing.letter)
  | .size c n unit => return c.holds n ((i.row.size + unit - 1) / unit : Nat)
  | .empty => do
    let s ← act get
    match i.thing with
    | ⟨loc, .dir⟩ => return s.tree.namesIn loc = []
    | ⟨_, .file bytes _⟩ => return bytes.size = 0
    | _ => return false
  | .newer time => do return time < i.row.time (← act get)
  | .age c n unit => do
    let s ← act get
    return c.holds n ((s.toWorld.now - i.row.time s) / unit)
  | .mode share bits => do
    let mode := i.thing.mode (← act get)
    match share with
    | .exactly => return mode = bits
    | .all => return mode &&& bits = bits
    | .any => return bits = 0 || mode &&& bits != 0
  | .places c n => do
    return c.holds n (placeCount (← act get) i.thing.place i.thing.value : Nat)
  | .sameFile loc => do
    return ((← act get).toWorld.placesOf i.thing.place).contains loc
  | .print ending => do
    act (Act.put (i.path ++ [ending]))
    return true
  | .format format _ => do
    let s ← act get
    act (Act.put (inFormat s i (format.length + 1) format))
    return true
  | .list => do
    let s ← act get
    let l : ListingStyle :=
      ⟨.long, .name, false, true, false, true, false, false, .none, .escaped, true, true, false,
        false, true, true, 80, [], none⟩
    act (putLines (l.lines s [⟨i.path, i.path, i.thing⟩]))
    return true
  | .delete => act (remove i)
  | .prune => do
    modify fun p => { p with pruned := true }
    return true
  | .quit => do
    modify fun p => { p with finished := true }
    return true
  | .run false words => act (succeeds start (filled i.path words))
  | .run true words => do
    let s ← act get
    let above := directoryName i.path
    let name := if bare i.path = [] || i.path = ['.'] then i.path else ['.', '/'] ++ lastName i.path
    act do
      match lookAt s true above with
      | .ok ⟨loc, .dir⟩ => modify fun s => { s with directory := (locationText loc).toText }
      | _ => pure ()
      let answer ← succeeds start (filled name words)
      modify fun after => { after with directory := s.directory }
      return answer
  | .collect number words => do
    modify fun p =>
      match p.batches.find? fun b => b.1 == number with
      | some _ => { p with batches := p.batches.map fun b =>
          if b.1 = number then (b.1, b.2.1, b.2.2 ++ [i.path]) else b }
      | none => { p with batches := p.batches ++ [(number, words, [i.path])] }
    return true
  | .ask words => do
    act (modify fun s => s.report (text "< " ++ words.headD [] ++ text " ... " ++ i.path ++
      text " > ? "))
    if ← act isAgreed then act (succeeds start (filled i.path words)) else return false
  | .negated c => do
    let answer ← holds start i c
    return !answer
  | .both a b => do
    let first ← holds start i a
    if first && !(← get).finished then holds start i b else return false
  | .either a b => do
    let first ← holds start i a
    if first || (← get).finished then return first else holds start i b
  | .after a b => do
    let _ ← holds start i a
    holds start i b

/-- Looks at an entry and all below it. The first argument bounds how deep directories lie. -/
def visit (start : Starter) (plan : Search) (condition : Condition) (follows : Bool) :
    Nat → Item → Walk Unit
  | 0, _ => pure ()
  | bound + 1, i => do
    if (← get).finished then return ()
    modify fun p => { p with pruned := false }
    let isDue := plan.shallowest ≤ i.depth
    if isDue && !plan.depthFirst then
      let _ ← holds start i condition
    let p ← get
    let goesOn := (!p.pruned || plan.depthFirst) && !p.finished && plan.deepest.all (i.depth < ·)
    match i.thing with
    | ⟨loc, .dir⟩ =>
      if goesOn then
        for name in (← act get).tree.namesIn loc do
          let path := below i.path (Octets.ofText name)
          let s ← act get
          let direct := lookAt s false path
          let found := if follows then (lookAt s true path).toOption <|> direct.toOption
            else direct.toOption
          match found with
          | some thing => visit start plan condition follows bound ⟨path, i.start, i.depth + 1, thing⟩
          | none => pure ()
    | _ => pure ()
    if isDue && plan.depthFirst && !(← get).finished then
      let _ ← holds start i condition

/-- The options before the paths, the paths, and the expression. -/
def split (words : List Octets) : Option Char × List Octets × List Octets :=
  let isOption := fun w : Octets => ["-H", "-L", "-P"].contains w.toText
  let options := words.takeWhile isOption
  let rest := words.drop options.length
  let isPath := fun w : Octets =>
    !(w.head? == some '-' && w.length > 1) && w ≠ ['('] && w ≠ ['!']
  let paths := rest.takeWhile isPath
  (options.getLast?.bind fun w => w[1]?, paths, rest.drop paths.length)

/-- Looks for entries as the words say. -/
def run (start : Starter) (words : List Octets) : Act Unit := do
  let (option?, paths, expression) := split words
  let s ← get
  let plan : Search := ⟨none, 0, false, false, 0⟩
  let read : Except Failure (Condition × Reading) :=
    if expression = [] then .ok (.constant true, ⟨[], plan, s⟩)
    else
      match (sequence (4 * expression.length + 8) 0).run ⟨expression, plan, s⟩ with
      | .ok (c, r) =>
        match r.words with
        | [] => .ok (c, r)
        | _ :: _ => .error .strayClosing
      | .error e => .error e
  match read with
  | .error e =>
    for message in e.messages do fail message
  | .ok (condition, r) =>
    let plan := r.search
    if plan.pruned && plan.depthFirst && !expression.contains (text "-depth") then
      fail (text "The -delete action automatically turns on -depth, but -prune does nothing when " ++
        text "-depth is in effect.  If you want to carry on anyway, just explicitly use the " ++
        text "-depth option.")
    else
      let condition := if condition.acts then condition else .both condition (.print '\n')
      let follows := option? = some 'L' || expression.contains (text "-follow")
      let leads := follows || option? = some 'H'
      let work : Walk Unit := do
        for path in if paths = [] then [['.']] else paths do
          let s ← act get
          let direct := lookAt s false path
          let found := if leads then
              (match lookAt s true path with
                | .ok thing => .ok thing
                | .error _ => direct)
            else direct
          match found with
          | .error e => act (fail (plainQuotes path ++ text (": " ++ errorText e)))
          | .ok thing =>
            if !(← get).finished then
              visit start plan condition follows (s.tree.entries.length + 2) ⟨path, path, 0, thing⟩
      let ((), progress) ← work.run ⟨[], false, false⟩
      for (_, words, paths) in progress.batches do
        if !(← succeeds start (words ++ paths)) then Act.setStatus 1

end Find

end BitcodeReplay.Tool
