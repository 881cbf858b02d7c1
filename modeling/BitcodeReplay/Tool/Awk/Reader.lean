import BitcodeReplay.Tool.Awk.Token

/-!
Reading programs that select records. A statement that cannot be read is told of and skipped, so that
one reading tells of all mistakes.
-/

namespace BitcodeReplay.Tool.Awk

/-- What is known of a function: how many parameters it has and what it does, if it has been defined,
and where it is called with how many arguments. -/
structure Known where
  name : String
  defined : Option (Nat × Statement)
  calls : List (Octets × Nat)

/-- Which part of a program is read. -/
inductive Part where
  | records
  | first
  | last
  | function
  deriving DecidableEq, Repr

/-- The state of a reading: the items that are left, how many parentheses and braces are open, whether
what is read is printed, the names that are known, and the mistakes, the last first. `kinds` says
which variables are tables and which are not. -/
structure Draft where
  items : List Item
  parentheses : Nat
  braces : Nat
  printing : Bool
  shared : Array String
  own : List String
  functions : Array Known
  kinds : List (Var × Bool)
  part : Part
  loops : Nat
  ranges : Nat
  mistakes : List Octets

abbrev Scan := ExceptT Unit (StateM Draft)

namespace Scan

def text (t : String) : Octets := Octets.ofText t

/-- Notes a mistake. -/
def note (mistake : Octets) : Scan Unit :=
  modify fun d => { d with mistakes := mistake :: d.mistakes }

/-- What comes when nothing is left. -/
def nothing : Item := ⟨.ending, [], [], 1⟩

/-- Skips parentheses and braces that close nothing, and tells of them. -/
def skipExtra : List Item → Draft → Draft
  | i :: rest, d =>
    let extra := fun m : String =>
      skipExtra rest { d with
        items := rest, mistakes := (i.place ++ text (": extra '" ++ m ++ "'")) :: d.mistakes }
    match i.token with
    | .mark ")" => if d.parentheses = 0 then extra ")" else d
    | .mark "\x7d" => if d.braces = 0 then extra "\x7d" else d
    | _ => d
  | [], d => d

def peek : Scan Item := do
  modify fun d => skipExtra d.items d
  return ((← get).items.head?).getD nothing

/-- The item behind the next one. -/
def peekSecond : Scan Item := return ((← get).items[1]?).getD nothing

def advance : Scan Unit := do
  let i ← peek
  modify fun d =>
    let d := { d with items := if d.items.length ≤ 1 then d.items else d.items.drop 1 }
    match i.token with
    | .mark "(" => { d with parentheses := d.parentheses + 1 }
    | .mark ")" => { d with parentheses := d.parentheses - 1 }
    | .mark "\x7b" => { d with braces := d.braces + 1 }
    | .mark "\x7d" => { d with braces := d.braces - 1 }
    | _ => d

/-- Whether an item ends a statement, so that parentheses have to be closed before. -/
def closes : Token → Bool
  | .newline => true
  | .mark m => m == ";" || m == "\x7d"
  | _ => false

/-- The variables that are looked after while a program runs. -/
def managedNames : List String := ["NF", "RS", "FS", "CONVFMT", "OFMT"]

/-- What is said of an item that cannot stand where it does. -/
def complaint (d : Draft) (i : Item) : Octets :=
  let shown := match i.token with
    | .newline => text "end of line"
    | .ending => text "end of file"
    | .name n _ => if managedNames.contains n then ['$'] else i.spelling
    | _ => i.spelling
  match i.token with
  | .broken mistake => i.place ++ text ": " ++ mistake
  | .odd c =>
    i.file ++ Octets.ofNat i.line ++ text ": unexpected character " ++
      (if ' ' < c && c.toNat < 127 then ['\'', c, '\'']
        else '0' :: 'x' :: List.replicate (2 - (Nat.toDigits 16 c.toNat).length) '0' ++ Nat.toDigits 16 c.toNat)
  | .ending =>
    i.place ++ (if 0 < d.braces then text ": missing \x7d near end of file"
      else text ": syntax error at or near end of file")
  | _ =>
    if closes i.token && 0 < d.parentheses then i.place ++ text ": missing ) near " ++ shown
    else i.place ++ text ": syntax error at or near " ++ shown

/-- Gives up what is read because of the next item. -/
def refuse {α : Type} : Scan α := do
  let i ← peek
  note (complaint (← get) i)
  if i.token matches .odd _ then advance
  if closes i.token then modify fun d => { d with parentheses := 0 }
  throw ()

def isMark (m : String) : Scan Bool := return (← peek).token == .mark m

def isWord (w : String) : Scan Bool := return (← peek).token == .keyword w

/-- Goes on behind a mark if it is the next item. -/
def accept (m : String) : Scan Bool := do
  if ← isMark m then
    advance
    return true
  else return false

def acceptWord (w : String) : Scan Bool := do
  if ← isWord w then
    advance
    return true
  else return false

def expect (m : String) : Scan Unit := do
  if !(← accept m) then refuse

/-- The next item, even if it closes nothing. -/
def head : Scan Item := return ((← get).items.head?).getD nothing

/-- Goes on behind line ends. The first argument bounds them. -/
def skipLines : Nat → Scan Unit
  | 0 => pure ()
  | bound + 1 => do
    if (← head).token = .newline then
      advance
      skipLines bound

def lines : Scan Unit := do skipLines (← get).items.length

/-- Notes how a variable is used, which must not change. -/
def use (v : Var) (isTable : Bool) : Scan Unit := do
  let d ← get
  match d.kinds.lookup v with
  | none => set { d with kinds := (v, isTable) :: d.kinds }
  | some known =>
    if known != isTable then
      let kind := if known then "array " else "variable "
      let name := match v with
        | .own i => text ("local " ++ kind) ++ text (d.own.getD i "")
        | .shared i => text kind ++ text (d.shared.getD i "")
      note ((← peek).place ++ text ": illegal reference to " ++ name)

/-- The variable of a name. -/
def variableOf (name : String) : Scan Var := do
  let d ← get
  match d.own.idxOf? name with
  | some i => return .own i
  | none =>
    match d.shared.idxOf? name with
    | some i => return .shared i
    | none =>
      set { d with shared := d.shared.push name }
      return .shared d.shared.size

/-- Whether a name stands for a function. -/
def isFunction (name : String) (called : Bool) : Scan Bool := do
  let d ← get
  if d.own.contains name then return false
  else if d.functions.any fun f => f.name == name then return true
  else return called && !d.shared.contains name

/-- The number of a function. -/
def functionOf (name : String) : Scan Nat := do
  let d ← get
  match d.functions.findIdx? fun f => f.name == name with
  | some i => return i
  | none =>
    set { d with functions := d.functions.push ⟨name, none, []⟩ }
    return d.functions.size

/-- Whether an expression can be given a value. -/
def isTarget : Expr → Bool
  | .var _ | .element _ _ | .field _ => true
  | _ => false

/-- How many arguments a function takes at least and at most. -/
def argumentCounts : Builtin → Nat × Nat
  | .atan2 | .index => (2, 2)
  | .random | .time => (0, 0)
  | .seed | .flush => (0, 1)
  | .substring => (2, 3)
  | .formatTime => (0, 3)
  | .format => (1, 255)
  | _ => (1, 1)

/-- The expression that a text of a pattern writes. -/
def regexOf (t : Octets) : Scan Expr := do
  match Pattern.read t with
  | .ok r => return .regex r
  | .error e =>
    note ((← peek).place ++ text (": regular expression compile failed (" ++ e.message ++ ")\n") ++ t)
    return .regex .empty

/-- The mark of an assignment: nothing for a plain one. -/
def assignment? : Token → Option (Option Operation)
  | .mark "=" => some none
  | .mark "+=" => some (some .add)
  | .mark "-=" => some (some .subtract)
  | .mark "*=" => some (some .multiply)
  | .mark "/=" => some (some .divide)
  | .mark "%=" => some (some .remainder)
  | .mark "^=" => some (some .power)
  | _ => none

/-- The operators between two expressions, by how tightly they bind. What is printed may not hold those
that lead it elsewhere. -/
def operator? (printing : Bool) (level : Nat) : Token → Option (Expr → Expr → Expr)
  | .mark m =>
    match level, m with
    | 1, "||" => some .either
    | 2, "&&" => some .both
    | 4, "~" => some (.matched true)
    | 4, "!~" => some (.matched false)
    | 5, "<" => some (.compare .less)
    | 5, "<=" => some (.compare .atMost)
    | 5, "==" => some (.compare .same)
    | 5, "!=" => some (.compare .differs)
    | 5, ">" => if printing then none else some (.compare .greater)
    | 5, ">=" => some (.compare .atLeast)
    | 8, "+" => some (.calculate .add)
    | 8, "-" => some (.calculate .subtract)
    | 9, "*" => some (.calculate .multiply)
    | 9, "/" => some (.calculate .divide)
    | 9, "%" => some (.calculate .remainder)
    | _, _ => none
  | _ => none

/-- Whether an expression can start with an item, so that it may be joined to the one before. -/
def startsOperand : Token → Bool
  | .number _ | .text _ | .regex _ | .name _ _ | .builtin _ | .keyword "getline" => true
  | .mark m => ["$", "(", "!", "++", "--"].contains m
  | _ => false

/-- Whether what stands in parentheses at the start of some items is a row of expressions, and all that
is printed. The first arguments are how deep the items stand, and whether a comma has been seen. -/
def isRow : Nat → Bool → List Item → Bool
  | _, _, [] => false
  | depth, comma, i :: rest =>
    match i.token with
    | .mark "(" | .mark "[" => isRow (depth + 1) comma rest
    | .mark "]" => isRow (depth - 1) comma rest
    | .mark "," => isRow depth (comma || depth == 1) rest
    | .mark ")" =>
      if depth = 1 then
        comma && match (rest.head?.getD nothing).token with
          | .newline | .ending => true
          | .mark m => [";", "\x7d", ">", ">>", "|"].contains m
          | _ => false
      else isRow (depth - 1) comma rest
    | .newline | .ending | .mark ";" | .mark "\x7d" => false
    | _ => isRow depth comma rest

/-- Reads something where it is not printed. -/
def aside {α : Type} (read : Scan α) : Scan α := do
  let printing := (← get).printing
  modify fun d => { d with printing := false }
  let result ← read
  modify fun d => { d with printing := printing }
  return result

mutual

/-- An expression that is as tight as a level says: choices, the operators by their levels, assignments
among joined texts, signs, commands that are read from, powers, steps. The first argument bounds how
deep it goes. -/
def level : Nat → Nat → Scan Expr
  | 0, _ => refuse
  | fuel + 1, 0 => do
    let condition ← level fuel 1
    if ← accept "?" then
      lines
      let yes ← level fuel 0
      lines
      expect ":"
      lines
      return .choice condition yes (← level fuel 0)
    else return condition
  | fuel + 1, 6 => do
    let a ← level fuel 7
    match isTarget a, assignment? (← peek).token with
    | true, some operation =>
      advance
      let value ← level fuel 0
      match operation with
      | none => return .assign a value
      | some o => return .update o a value
    | _, _ => return a
  | fuel + 1, 7 => do joined fuel (← level fuel 8)
  | fuel + 1, 10 => do
    if ← accept "!" then return .notTrue (← level fuel 10)
    else if ← accept "-" then return .minus (← level fuel 10)
    else if ← accept "+" then return .plus (← level fuel 10)
    else level fuel 11
  | fuel + 1, 11 => do piped fuel (← level fuel 12)
  | fuel + 1, 12 => do
    let base ← level fuel 13
    if ← accept "^" then
      let token := (← peek).token
      let signed := token == .mark "-" || token == .mark "+" || token == .mark "!"
      return .calculate .power base (← level fuel (if signed then 10 else 12))
    else return base
  | fuel + 1, 13 => do
    let a ← primary fuel
    let token := (← peek).token
    if isTarget a && (token == .mark "++" || token == .mark "--") then
      advance
      return .step (if token == .mark "++" then .add else .subtract) false a
    else return a
  | fuel + 1, n => do operated fuel n (← level fuel (n + 1))

/-- Goes on behind an expression with the operators of a level. -/
def operated : Nat → Nat → Expr → Scan Expr
  | 0, _, a => return a
  | fuel + 1, n, a => do
    let token := (← peek).token
    if n = 3 && token == .keyword "in" then
      advance
      let v ← table
      operated fuel n (.isIn [a] v)
    else
      match operator? (← get).printing n token with
      | some combine =>
        advance
        if n ≤ 2 then lines
        operated fuel n (combine a (← level fuel (n + 1)))
      | none => return a

/-- Goes on behind a text with those that are joined to it. -/
def joined : Nat → Expr → Scan Expr
  | 0, a => return a
  | fuel + 1, a => do
    if startsOperand (← peek).token then joined fuel (.join a (← level fuel 8))
    else return a

/-- Goes on behind a command that is read from. -/
def piped : Nat → Expr → Scan Expr
  | 0, a => return a
  | fuel + 1, a => do
    if (← get).printing then return a
    if ← accept "|" then
      if ← acceptWord "getline" then
        piped fuel (.getline .command (some a) (← target? fuel))
      else refuse
    else return a

/-- The variable, the element or the field that is the next item, if one is. -/
def target? : Nat → Scan (Option Expr)
  | 0 => return none
  | fuel + 1 => do
    match (← peek).token with
    | .name n called =>
      if ← isFunction n called then return none
      else return some (← primary fuel)
    | .mark "$" => return some (← primary fuel)
    | _ => return none

/-- The name of a table. -/
def table : Scan Var := do
  match (← peek).token with
  | .name n called =>
    if ← isFunction n called then refuse
    let v ← variableOf n
    match v with
    | .shared _ => if managedNames.contains n then refuse
    | .own _ => pure ()
    advance
    use v true
    return v
  | _ => refuse

/-- Expressions between commas. -/
def row : Nat → Scan (List Expr)
  | 0 => refuse
  | fuel + 1 => do
    let e ← level fuel 0
    if ← accept "," then
      lines
      return e :: (← row fuel)
    else return [e]

/-- The arguments of a function, in parentheses. -/
def arguments : Nat → Scan (List Expr)
  | 0 => refuse
  | fuel + 1 => do
    expect "("
    aside do
      if ← accept ")" then return []
      let all ← row fuel
      expect ")"
      return all

/-- An expression without operators. -/
def primary : Nat → Scan Expr
  | 0 => refuse
  | fuel + 1 => do
    let item ← peek
    match item.token with
    | .number n =>
      advance
      return .number n
    | .text t =>
      advance
      return .text t
    | .regex t =>
      advance
      regexOf t
    | .mark "(" => do
      advance
      let all ← aside do
        let all ← row fuel
        expect ")"
        return all
      match all with
      | [_] => return .group all
      | _ =>
        if ← acceptWord "in" then return .isIn all (← table)
        else refuse
    | .mark "$" => do
      advance
      let token := (← peek).token
      if token == .mark "-" || token == .mark "+" || token == .mark "!" then
        return .field (← level fuel 10)
      else
        let place ← primary fuel
        let token := (← peek).token
        let d ← get
        let managed := match place with
          | .var (.shared i) => managedNames.contains (d.shared.getD i "")
          | _ => false
        if managed && (token == .mark "++" || token == .mark "--") then
          advance
          return .field (.step (if token == .mark "++" then .add else .subtract) false place)
        else return .field place
    | .mark "++" | .mark "--" => do
      advance
      match ← target? fuel with
      | some a => return .step (if item.token == .mark "++" then .add else .subtract) true a
      | none => refuse
    | .keyword "getline" => do
      advance
      let target ← target? fuel
      if ← accept "<" then return .getline .file (some (← level fuel 12)) target
      else return .getline .input none target
    | .builtin b => do
      advance
      builtin fuel item b
    | .name n called => do
      if ← isFunction n called then
        advance
        let f ← functionOf n
        let all ← arguments fuel
        modify fun d => { d with
          functions := d.functions.modify f fun k => { k with calls := (item.place, all.length) :: k.calls } }
        return .call f all
      else
        advance
        if ← isMark "[" then
          let v ← variableOf n
          if let .shared _ := v then
            if managedNames.contains n then refuse
          use v true
          advance
          let keys ← row fuel
          expect "]"
          return .element v keys
        else
          let v ← variableOf n
          let token := (← peek).token
          let isArgument := token == .mark "," || token == .mark ")"
          if !isArgument && token != .keyword "in" then use v false
          return .var v
    | _ => refuse

/-- A function that every program has, with its arguments. -/
def builtin : Nat → Item → Builtin → Scan Expr
  | 0, _, _ => refuse
  | fuel + 1, item, b => do
    match b with
    | .length =>
      if ← isMark "(" then return .builtin b (← arguments fuel)
      else return .builtin b []
    | .split => do
      expect "("
      aside do
        let t ← level fuel 0
        expect ","
        lines
        let v ← table
        let more ← if ← accept "," then
            lines
            pure [← level fuel 0]
          else pure []
        expect ")"
        return .builtin b (t :: .var v :: more)
    | .lookFor => do
      expect "("
      aside do
        let t ← level fuel 0
        expect ","
        lines
        let p ← level fuel 0
        expect ")"
        return .builtin b [t, p]
    | .substitute _ => do
      expect "("
      aside do
        let p ← level fuel 0
        expect ","
        lines
        let t ← level fuel 0
        if ← accept "," then
          lines
          match ← target? fuel with
          | some target =>
            expect ")"
            return .builtin b [p, t, target]
          | none => refuse
        else
          expect ")"
          return .builtin b [p, t]
    | _ => do
      let all ← arguments fuel
      let (least, most) := argumentCounts b
      if all.length < least || most < all.length then
        note (item.place ++ text ": wrong number of arguments in call to " ++ item.spelling)
      return .builtin b all

end

/-- Goes on behind the end of a statement. -/
def separator : Scan Unit := do
  match (← peek).token with
  | .newline => lines
  | .mark ";" => do
    advance
    lines
  | .mark "\x7d" => pure ()
  | _ => refuse

/-- An expression in parentheses, behind which lines may end. -/
def condition (fuel : Nat) : Scan Expr := do
  expect "("
  let e ← level fuel 0
  expect ")"
  lines
  return e

/-- What is printed, and where. -/
def printed (fuel : Nat) : Scan (List Expr × Redirection) := do
  let row? := isRow 0 false (← get).items
  let token := (← peek).token
  modify fun d => { d with printing := true }
  let all ←
    if token == .mark "(" && row? then arguments fuel
    else if token == .mark "(" && ((← peekSecond).token == .mark ")") then arguments fuel
    else if closes token || token == .mark ">" || token == .mark ">>" || token == .mark "|" then
      pure []
    else row fuel
  modify fun d => { d with printing := false }
  let kind : Option Target :=
    match (← peek).token with
    | .mark ">" => some .file
    | .mark ">>" => some .behind
    | .mark "|" => some .command
    | _ => none
  match kind with
  | some kind =>
    advance
    return (all, some (kind, ← level fuel 0))
  | none => return (all, none)

/-- Reads something inside a loop. -/
def inLoop {α : Type} (read : Scan α) : Scan α := do
  modify fun d => { d with loops := d.loops + 1 }
  let result ← read
  modify fun d => { d with loops := d.loops - 1 }
  return result

/-- Notes a mistake of the item that has just been read. -/
def noteAt (item : Item) (mistake : String) : Scan Unit := note (item.place ++ text (": " ++ mistake))

/-- A statement that holds no others, without its end. -/
def simple (fuel : Nat) : Scan Statement := do
  let item ← peek
  let insideLoop := 0 < (← get).loops
  let part := (← get).part
  match item.token with
  | .keyword "print" => do
    advance
    let (all, to?) ← printed fuel
    return .print all to?
  | .keyword "printf" => do
    advance
    let (all, to?) ← printed fuel
    if all.isEmpty then noteAt item "no arguments in call to printf"
    return .printf all to?
  | .keyword "delete" => do
    advance
    let v ← table
    if ← accept "[" then
      let keys ← row fuel
      expect "]"
      return .delete v keys
    else return .deleteAll v
  | .keyword "next" => do
    advance
    if part != .records then noteAt item "improper use of next"
    return .next
  | .keyword "nextfile" => do
    advance
    if part != .records then noteAt item "improper use of nextfile"
    return .nextFile
  | .keyword "exit" => do
    advance
    if closes (← peek).token then return .exit none
    else return .exit (some (← level fuel 0))
  | .keyword "return" => do
    advance
    if part != .function then noteAt item "return outside function body"
    if closes (← peek).token then return .leave none
    else return .leave (some (← level fuel 0))
  | .keyword "break" => do
    advance
    if !insideLoop then noteAt item "break statement outside of loop"
    return .stop
  | .keyword "continue" => do
    advance
    if !insideLoop then noteAt item "continue statement outside of loop"
    return .proceed
  | _ => return .value (← level fuel 0)

/-- Goes on behind what cannot be read, up to where the next statement may start. The first argument
bounds the items. -/
def recover : Nat → Scan Unit
  | 0 => pure ()
  | bound + 1 => do
    match (← peek).token with
    | .newline => lines
    | .mark ";" => do
      advance
      lines
    | .mark "\x7d" | .ending => pure ()
    | .broken _ => throw ()
    | _ => do
      advance
      recover bound

mutual

def statement : Nat → Scan Statement
  | 0 => refuse
  | fuel + 1 => do
    match (← peek).token with
    | .mark "\x7b" => block fuel
    | .mark ";" => do
      advance
      lines
      return .nothing
    | .newline => do
      lines
      return .nothing
    | .keyword "if" => do
      advance
      let c ← condition fuel
      let yes ← statement fuel
      if ← acceptWord "else" then
        lines
        return .choice c yes (← statement fuel)
      else return .choice c yes .nothing
    | .keyword "while" => do
      advance
      let c ← condition fuel
      return .loop (some c) .nothing (← inLoop (statement fuel))
    | .keyword "do" => do
      advance
      lines
      let body ← inLoop (statement fuel)
      if ← acceptWord "while" then
        expect "("
        let c ← level fuel 0
        expect ")"
        separator
        return .loopAfter body c
      else refuse
    | .keyword "for" => do
      advance
      expect "("
      loopOver fuel
    | _ => do
      let s ← simple fuel
      separator
      return s

/-- What follows `for` and a parenthesis. -/
def loopOver : Nat → Scan Statement
  | 0 => refuse
  | fuel + 1 => do
    let items := (← get).items
    let isEach := match (items.take 4).map Item.token with
      | [.name _ _, .keyword "in", .name _ _, .mark ")"] => true
      | _ => false
    match isEach, (← peek).token with
    | true, .name n _ =>
      advance
      let target ← variableOf n
      use target false
      advance
      let v ← table
      expect ")"
      lines
      return .each target v (← inLoop (statement fuel))
    | _, _ =>
      let first ← if ← isMark ";" then pure .nothing else (do return .value (← level fuel 0))
      expect ";"
      lines
      let c ← if ← isMark ";" then pure none else (do return some (← level fuel 0))
      expect ";"
      lines
      let step ← if ← isMark ")" then pure .nothing else (do return .value (← level fuel 0))
      expect ")"
      lines
      let body ← inLoop (statement fuel)
      return .block [first, .loop c step body]

/-- Statements in braces. -/
def block : Nat → Scan Statement
  | 0 => refuse
  | fuel + 1 => do
    expect "\x7b"
    lines
    let all ← statements fuel
    if !(← isMark "\x7d") then refuse
    advance
    if 0 < (← get).braces then lines
    return .block all

/-- Statements up to a brace. What cannot be read of them is skipped. -/
def statements : Nat → Scan (List Statement)
  | 0 => return []
  | fuel + 1 => do
    match (← peek).token with
    | .mark "\x7d" | .ending => return []
    | .broken _ => refuse
    | _ => do
      let loops := (← get).loops
      let s ←
        try
          statement fuel
        catch _ =>
          modify fun d => { d with printing := false, loops := loops }
          if (← peek).token matches .ending then throw ()
          recover (← get).items.length
          pure .nothing
      return s :: (← statements fuel)

end

/-- Goes on behind a rule: behind a semicolon on its line, and the line ends. -/
def endRule : Scan Unit := do
  if (← head).token == .mark ";" then advance
  lines

/-- The parameters of a function. The first argument bounds their number. -/
def parameters : Nat → List String → Scan (List String)
  | 0, _ => refuse
  | bound + 1, known => do
    let item ← peek
    match item.token with
    | .name n _ => do
      advance
      if known.contains n then noteAt item (n ++ " is duplicated in argument list")
      if ← accept "," then
        lines
        parameters bound (known ++ [n])
      else return known ++ [n]
    | _ => refuse

/-- The definition of a function. -/
def definition (fuel : Nat) : Scan Unit := do
  let item ← peek
  match item.token with
  | .name n _ => do
    if managedNames.contains n then refuse
    advance
    let d ← get
    match d.shared.idxOf? n with
    | some i =>
      let kind := if (d.kinds.lookup (.shared i)).getD false then "array " else "variable "
      noteAt item ("illegal reference to " ++ kind ++ n)
    | none => pure ()
    let f ← functionOf n
    if (d.functions.any fun k => k.name == n && k.defined.isSome) then
      noteAt item ("redefinition of " ++ n)
    expect "("
    let names ← if ← isMark ")" then pure [] else parameters fuel []
    expect ")"
    lines
    let known : Known → Known := fun k => { k with defined := some (names.length, .nothing) }
    modify fun d => { d with own := names, part := .function, functions := d.functions.modify f known }
    let body ← block fuel
    modify fun d => { d with
      own := []
      part := .records
      kinds := d.kinds.filter fun p => p.1 matches .shared _
      functions := d.functions.modify f fun k => { k with defined := some (names.length, body) } }
  | _ => refuse

/-- A rule of a program: what it does, and the part that it belongs to. -/
def rule (fuel : Nat) : Scan (Option (Part × Rule)) := do
  let token := (← peek).token
  let action : Part → Scan Statement := fun part => do
    modify fun d => { d with part := part }
    let s ← block fuel
    modify fun d => { d with part := .records }
    return s
  if token == .keyword "function" then
    advance
    definition fuel
    endRule
    return none
  else if token == .keyword "BEGIN" || token == .keyword "END" then
    let part : Part := if token == .keyword "BEGIN" then .first else .last
    advance
    if !(← isMark "\x7b") then refuse
    let s ← action part
    endRule
    return some (part, ⟨.always, s⟩)
  else if token == .mark "\x7b" then
    let s ← action .records
    endRule
    return some (.records, ⟨.always, s⟩)
  else
    let first ← level fuel 0
    let selector ←
      if ← accept "," then do
        lines
        let last ← level fuel 0
        let place := (← get).ranges
        modify fun d => { d with ranges := place + 1 }
        pure (Selector.range place first last)
      else pure (Selector.condition first)
    if ← isMark "\x7b" then
      let s ← action .records
      endRule
      return some (.records, ⟨selector, s⟩)
    else
      match (← peek).token with
      | .newline => lines
      | .mark ";" => do
        advance
        lines
      | _ => refuse
      return some (.records, ⟨selector, .print [] none⟩)

/-- Goes on behind a rule that cannot be read, up to the next block, which is read too. The first
argument bounds the items. -/
def recoverRule : Nat → Scan Unit
  | 0 => pure ()
  | bound + 1 => do
    match (← peek).token with
    | .ending => pure ()
    | .broken _ => throw ()
    | .mark "\x7b" => do
      let _ ← block (20 * bound + 100)
      endRule
    | _ => do
      advance
      recoverRule bound

/-- The rules of a program. The first argument bounds their number. -/
def rules : Nat → Scan (List (Part × Rule))
  | 0 => return []
  | bound + 1 => do
    let fuel := 20 * (← get).items.length + 100
    match (← peek).token with
    | .ending => return []
    | _ => do
      let found ←
        try
          rule fuel
        catch _ =>
          modify fun d => { d with
            parentheses := 0, braces := 0, printing := false, loops := 0, own := [], part := .records }
          recoverRule (← get).items.length
          pure none
      return found.toList ++ (← rules bound)

end Scan

/-- How many mistakes are told of before a reading ends. -/
def maxMistakes : Nat := 5

/-- Reads a program, or tells of its mistakes. -/
def Program.read (items : List Item) : Except (List Octets) Program :=
  let start : Draft :=
    ⟨items, 0, 0, false, knownNames.toArray, [], #[],
      knownNames.zipIdx.map fun (n, i) => (.shared i, n == "ENVIRON" || n == "ARGV"), .records, 0, 0, []⟩
  let afterLines := (do Scan.lines; Scan.rules (items.length + 1) : Scan (List (Part × Rule)))
  let (result, d) := afterLines.run.run start
  let lastPlace := (items.getLast?.getD Scan.nothing).place
  let missing := d.functions.toList.flatMap fun k =>
    match k.defined with
    | none => k.calls.map fun _ => lastPlace ++ Scan.text (": function " ++ k.name ++ " never defined")
    | some (count, _) =>
      k.calls.reverse.filterMap fun (place, given) =>
        if count < given then some (place ++ Scan.text (": too many arguments in call to " ++ k.name))
        else none
  let mistakes := d.mistakes.reverse ++ (if d.mistakes.isEmpty then missing else [])
  match mistakes, result with
  | [], .ok all =>
    let of := fun part : Part => (all.filter fun r => r.1 == part).map (·.2)
    .ok {
      first := (of .first).map (·.action)
      rules := of .records
      last := (of .last).map (·.action)
      functions := d.functions.map fun k =>
        let (count, body) := k.defined.getD (0, .nothing)
        ⟨k.name, count, body⟩
      shared := d.shared
      ranges := d.ranges }
  | _, _ => .error (mistakes.take maxMistakes)

end BitcodeReplay.Tool.Awk
