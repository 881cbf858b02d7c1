/-!
Sets of characters as patterns write them between brackets: single characters, ranges and the named
classes of the portable character set. A bracket that closes right at the start stands for itself.
-/

namespace BitcodeReplay.Text

/-- What one item between brackets stands for. -/
inductive SetItem where
  | range (low high : Char)
  | named (name : String)
  deriving DecidableEq, Repr

/-- Some characters, or all others. -/
structure CharacterSet where
  negated : Bool
  items : List SetItem
  deriving DecidableEq, Repr

def isDigit (c : Char) : Bool := '0' ≤ c && c ≤ '9'

def isLetter (c : Char) : Bool := ('a' ≤ c && c ≤ 'z') || ('A' ≤ c && c ≤ 'Z')

/-- The classes that have a name. -/
def classNames : List String :=
  ["alpha", "digit", "alnum", "lower", "upper", "space", "blank", "punct", "graph", "print",
    "cntrl", "xdigit"]

/-- Whether a character belongs to a named class. -/
def inClass (name : String) (c : Char) : Bool :=
  let n := c.toNat
  match name with
  | "alpha" => isLetter c
  | "digit" => isDigit c
  | "alnum" => isLetter c || isDigit c
  | "lower" => 'a' ≤ c && c ≤ 'z'
  | "upper" => 'A' ≤ c && c ≤ 'Z'
  | "space" => n == 32 || (9 ≤ n && n ≤ 13)
  | "blank" => n == 32 || n == 9
  | "punct" => 33 ≤ n && n ≤ 126 && !isLetter c && !isDigit c
  | "graph" => 33 ≤ n && n ≤ 126
  | "print" => 32 ≤ n && n ≤ 126
  | "cntrl" => n < 32 || n == 127
  | "xdigit" => isDigit c || ('a' ≤ c && c ≤ 'f') || ('A' ≤ c && c ≤ 'F')
  | _ => false

def SetItem.holds (c : Char) : SetItem → Bool
  | .range low high => low ≤ c && c ≤ high
  | .named name => inClass name c

def CharacterSet.holds (s : CharacterSet) (c : Char) : Bool :=
  s.items.any (SetItem.holds c) != s.negated

/-- The name of a class up to its closing `:]`, and what follows. -/
def className? (name : List Char) : List Char → Option (String × List Char)
  | ':' :: ']' :: rest => some (String.ofList name, rest)
  | c :: rest => if isLetter c then className? (name ++ [c]) rest else none
  | [] => none

/-- A character between brackets as it stands there, or alone between points or equal signs. -/
def setChar (escapes : Bool) : List Char → Option (Char × List Char)
  | [] => none
  | '[' :: '.' :: c :: '.' :: ']' :: rest => some (c, rest)
  | '[' :: '=' :: c :: '=' :: ']' :: rest => some (c, rest)
  | '\\' :: rest =>
    if escapes then
      match rest with
      | c :: rest => some (c, rest)
      | [] => none
    else some ('\\', rest)
  | c :: rest => some (c, rest)

/-- Reads items up to the closing bracket. With `escapes`, a backslash makes the character after it
an item. The first argument bounds the number of items. -/
def setItems? (escapes : Bool) : Nat → List Char → Option (List SetItem × List Char)
  | 0, _ => none
  | _, [] => none
  | _, ']' :: rest => some ([], rest)
  | bound + 1, text =>
    let named :=
      match text with
      | '[' :: ':' :: rest => className? [] rest
      | _ => none
    match named with
    | some (name, rest) =>
      (setItems? escapes bound rest).map fun (items, rest) => (.named name :: items, rest)
    | none =>
      match setChar escapes text with
      | none => none
      | some (first, '-' :: rest) =>
        if rest.head? = some ']' then
          (setItems? escapes bound ('-' :: rest)).map fun (items, rest) =>
            (.range first first :: items, rest)
        else
          match setChar escapes rest with
          | none => none
          | some (last, rest) =>
            (setItems? escapes bound rest).map fun (items, rest) =>
              (.range first last :: items, rest)
      | some (first, rest) =>
        (setItems? escapes bound rest).map fun (items, rest) => (.range first first :: items, rest)

/-- The set after an opening bracket, and what follows its closing bracket. The characters that
negate a set are given. -/
def characterSet? (escapes : Bool) (negations : List Char) (text : List Char) :
    Option (CharacterSet × List Char) :=
  let negated := text.head?.any negations.contains
  let body := if negated then text.drop 1 else text
  match body with
  | ']' :: rest =>
    match rest with
    | '-' :: c :: beyond =>
      if c = ']' then
        (setItems? escapes (rest.length + 1) rest).map fun (items, rest) =>
          (⟨negated, .range ']' ']' :: items⟩, rest)
      else
        (setItems? escapes (beyond.length + 1) beyond).map fun (items, rest) =>
          (⟨negated, .range ']' c :: items⟩, rest)
    | _ =>
      (setItems? escapes (rest.length + 1) rest).map fun (items, rest) =>
        (⟨negated, .range ']' ']' :: items⟩, rest)
  | _ =>
    (setItems? escapes (body.length + 1) body).map fun (items, rest) => (⟨negated, items⟩, rest)

end BitcodeReplay.Text
