import BitcodeReplay.Text.Utf8

/-!
The options of tools. Words that start with a dash hold letters, and those that start with two hold
a name, which may be cut short. Options may stand behind operands unless a tool forbids it.
-/

namespace BitcodeReplay.Tool

/-- Whether an option takes an argument. -/
inductive Need where
  | nothing
  | optional
  | required
  deriving DecidableEq, Repr

/-- The options of a tool: those with a letter, and those with a name, which may stand for a letter.
With `ordered`, the first operand ends the options. -/
structure OptionTable where
  letters : List (Char × Need)
  names : List (String × String × Need)
  ordered : Bool
  deriving Repr

/-- An option under its letter, or under its name if it has none, with its argument. -/
abbrev Given := List (String × Octets)

inductive OptionFailure where
  | unknownLetter (letter : Char)
  | unknownName (word : Octets)
  | ambiguous (word : Octets) (names : List String)
  | noArgument (letter : Char)
  | nameWithoutArgument (name : String)
  | surplusArgument (name : String)
  deriving DecidableEq, Repr

def OptionFailure.message : OptionFailure → String
  | .unknownLetter c => "invalid option -- '" ++ String.singleton c ++ "'"
  | .unknownName word => "unrecognized option '" ++ word.toText ++ "'"
  | .ambiguous word names =>
    "option '" ++ word.toText ++ "' is ambiguous; possibilities:" ++
      String.join (names.map fun name => " '--" ++ name ++ "'")
  | .noArgument c => "option requires an argument -- '" ++ String.singleton c ++ "'"
  | .nameWithoutArgument name => "option '--" ++ name ++ "' requires an argument"
  | .surplusArgument name => "option '--" ++ name ++ "' doesn't allow an argument"

namespace OptionTable

/-- A table from letters as `ab:c::`, where colons follow those that take an argument. -/
def lettersOf : List Char → List (Char × Need)
  | c :: ':' :: ':' :: rest => (c, .optional) :: lettersOf rest
  | c :: ':' :: rest => (c, .required) :: lettersOf rest
  | c :: rest => (c, .nothing) :: lettersOf rest
  | [] => []

/-- The names that a word may stand for: the one that it is, or those that start with it. -/
def namesFor (t : OptionTable) (word : Octets) : List (String × String × Need) :=
  match t.names.filter fun n => n.1.toList == word with
  | [] => t.names.filter fun n => word.isPrefixOf n.1.toList
  | exact => exact

/-- What a word of a name gives, and the words behind it. -/
def named (t : OptionTable) (word : Octets) (rest : List Octets) :
    Except OptionFailure ((String × Octets) × List Octets) :=
  let name := word.takeWhile (· != '=')
  let argument? : Option Octets :=
    if name.length = word.length then none else some (word.drop (name.length + 1))
  let found := t.namesFor name
  let agree := found.all fun n => n.2 == (found.headD ("", "", .nothing)).2
  match found, agree with
  | [], _ => .error (.unknownName ('-' :: '-' :: name))
  | _, false => .error (.ambiguous ('-' :: '-' :: word) (found.map (·.1)))
  | (full, key, need) :: _, true =>
    match need, argument? with
    | .nothing, some _ => .error (.surplusArgument full)
    | .nothing, none | .optional, none => .ok ((key, []), rest)
    | .optional, some argument | .required, some argument => .ok ((key, argument), rest)
    | .required, none =>
      match rest with
      | argument :: rest => .ok ((key, argument), rest)
      | [] => .error (.nameWithoutArgument full)

/-- What a word of letters gives, and the words behind it. -/
def grouped (t : OptionTable) (rest : List Octets) : Octets →
    Except OptionFailure (Given × List Octets)
  | [] => .ok ([], rest)
  | c :: more =>
    match t.letters.lookup c with
    | none => .error (.unknownLetter c)
    | some .nothing =>
      (grouped t rest more).map fun (given, rest) => ((String.singleton c, []) :: given, rest)
    | some .optional => .ok ([(String.singleton c, more)], rest)
    | some .required =>
      if more ≠ [] then .ok ([(String.singleton c, more)], rest)
      else
        match rest with
        | argument :: rest => .ok ([(String.singleton c, argument)], rest)
        | [] => .error (.noArgument c)

/-- The options and the operands of some words. The first argument bounds the number of words. -/
def readUpTo (t : OptionTable) : Nat → List Octets →
    Except OptionFailure (Given × List Octets)
  | 0, words => .ok ([], words)
  | _, [] => .ok ([], [])
  | bound + 1, word :: rest =>
    match word with
    | ['-', '-'] => .ok ([], rest)
    | '-' :: '-' :: name => do
      let (option, rest) ← t.named name rest
      let (given, operands) ← readUpTo t bound rest
      return (option :: given, operands)
    | '-' :: c :: more => do
      let (options, rest) ← t.grouped rest (c :: more)
      let (given, operands) ← readUpTo t bound rest
      return (options ++ given, operands)
    | _ =>
      if t.ordered then .ok ([], word :: rest)
      else (readUpTo t bound rest).map fun (given, operands) => (given, word :: operands)

def read (t : OptionTable) (words : List Octets) : Except OptionFailure (Given × List Octets) :=
  t.readUpTo (words.length + 1) words

end OptionTable

namespace Given

/-- Whether an option is given. -/
def has (g : Given) (key : String) : Bool := g.any fun p => p.1 == key

/-- The argument of an option where it is given last. -/
def last? (g : Given) (key : String) : Option Octets :=
  (g.filter fun p => p.1 == key).getLast?.map (·.2)

/-- All arguments of an option. -/
def all (g : Given) (key : String) : List Octets :=
  (g.filter fun p => p.1 == key).map (·.2)

/-- The last of some options that is given. -/
def lastOf? (g : Given) (keys : List String) : Option String :=
  (g.filter fun p => keys.contains p.1).getLast?.map (·.1)

end Given

/-- A table of letters alone. -/
def OptionTable.of (letters : String) (names : List (String × String × Need)) : OptionTable :=
  ⟨lettersOf letters.toList, names, false⟩

/-- A table whose options end at the first operand. -/
def OptionTable.ofOrdered (letters : String) (names : List (String × String × Need)) :
    OptionTable :=
  ⟨lettersOf letters.toList, names, true⟩

end BitcodeReplay.Tool
