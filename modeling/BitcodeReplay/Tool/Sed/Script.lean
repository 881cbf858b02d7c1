import BitcodeReplay.Text.Utf8
import BitcodeReplay.Text.RegexSyntax

/-!
The scripts that edit lines: commands in a row, each for the lines that its addresses select.
-/

namespace BitcodeReplay.Tool.Sed

/-- An expression, and how texts are looked at; nothing stands for the one that was used last. -/
abbrev Pattern := Option (Text.Regex × Text.Look)

/-- What selects a line: its number, every so many of them from one on, being the last, or what it
holds. -/
inductive Address where
  | line (number : Nat)
  | every (first step : Nat)
  | last
  | matching (p : Pattern)
  deriving DecidableEq, Repr

/-- Where a range of lines ends: at an address, so many lines later, or at the next number that another
divides. -/
inductive RangeEnd where
  | address (a : Address)
  | later (count : Nat)
  | multiple (factor : Nat)
  deriving DecidableEq, Repr

/-- How the letters of a replacement change, from a place in it on. -/
inductive LetterCase where
  | upper
  | lower
  | plain
  | nextUpper
  | nextLower
  deriving DecidableEq, Repr

/-- A part of a replacement: a text, a marked part of the match, or a change of letters. -/
inductive Piece where
  | text (t : Octets)
  | part (number : Nat)
  | letters (c : LetterCase)
  deriving DecidableEq, Repr

/-- A substitution: which matches it replaces, the first being `nth`, and what is done if one is
replaced. -/
structure Substitution where
  pattern : Pattern
  pieces : List Piece
  nth : Nat
  all : Bool
  prints : Bool
  evaluates : Bool
  file : Option Octets
  deriving DecidableEq, Repr

/-- When a branch is taken: always, or if a line has been substituted, or if not. -/
inductive BranchRule where
  | always
  | replaced
  | unreplaced
  deriving DecidableEq, Repr

/-- What a command does. A block goes on behind its end for lines that it is not for. -/
inductive Action where
  | block (past : Nat)
  | nothing
  | label (name : Octets)
  | branch (rule : BranchRule) (label : Octets)
  | append (t : Octets)
  | insert (t : Octets)
  | change (t : Octets)
  | delete
  | deleteFirst
  | print
  | printFirst
  | next
  | join
  | hold
  | holdMore
  | fetch
  | fetchMore
  | exchange
  | display (width : Option Nat)
  | number
  | fileName
  | clear
  | quit (status : Nat)
  | leave (status : Nat)
  | readFile (path : Octets)
  | readLine (path : Octets)
  | writeFile (path : Octets)
  | writeFirst (path : Octets)
  | substitute (s : Substitution)
  | exchangeLetters (table : List (Char × Char))
  | evaluate (command : Octets)
  deriving DecidableEq, Repr

/-- A command with the lines that it is for. -/
structure Step where
  first : Option Address
  stop : Option RangeEnd
  negated : Bool
  action : Action
  deriving DecidableEq, Repr

/-- Where a part of a script comes from: an option, by its number, or a file. -/
inductive Source where
  | expression (number : Nat)
  | file (path : Octets)
  deriving DecidableEq, Repr

/-- Why a script cannot be read. -/
inductive ScriptFailure where
  | manyNegations
  | noSecondAddress
  | relativeFirst
  | openBlock
  | noBlock
  | surplus
  | noText
  | addressedEnd
  | addressedLabel
  | addressedComment
  | noCommand
  | oneAddress
  | openAddress
  | openSubstitution
  | openExchange
  | unknownFlag
  | manyPrints
  | manyAlls
  | manyNumbers
  | zeroNumber
  | differentLengths
  | lineZero
  | unknownCommand (c : Char)
  | noLabel
  | noFile
  | noPart (number : Nat)
  | changedEmpty
  | nestedEscape
  | tooNew
  | noPattern
  | badPattern (e : Text.RegexFailure)
  | noSuchLabel (name : Octets)
  deriving DecidableEq, Repr

/-- What is said of a failure that no character or name of the script belongs to. -/
def ScriptFailure.wording : ScriptFailure → String
  | .manyNegations => "multiple \x60!'s"
  | .noSecondAddress => "unexpected \x60,'"
  | .relativeFirst => "invalid usage of +N or ~N as first address"
  | .openBlock => "unmatched \x60\x7b'"
  | .noBlock => "unexpected \x60\x7d'"
  | .surplus => "extra characters after command"
  | .noText => "expected \\ after \x60a', \x60c' or \x60i'"
  | .addressedEnd => "\x60\x7d' doesn't want any addresses"
  | .addressedLabel => ": doesn't want any addresses"
  | .addressedComment => "comments don't accept any addresses"
  | .noCommand => "missing command"
  | .oneAddress => "command only uses one address"
  | .openAddress => "unterminated address regex"
  | .openSubstitution => "unterminated \x60s' command"
  | .openExchange => "unterminated \x60y' command"
  | .unknownFlag => "unknown option to \x60s'"
  | .manyPrints => "multiple \x60p' options to \x60s' command"
  | .manyAlls => "multiple \x60g' options to \x60s' command"
  | .manyNumbers => "multiple number options to \x60s' command"
  | .zeroNumber => "number option to \x60s' command may not be zero"
  | .differentLengths => "strings for \x60y' command are different lengths"
  | .lineZero => "invalid usage of line address 0"
  | .unknownCommand _ => "unknown command"
  | .noLabel => "\":\" lacks a label"
  | .noFile => "missing filename in r/R/w/W commands"
  | .noPart n => "invalid reference \\" ++ toString n ++ " on \x60s' command's RHS"
  | .changedEmpty => "cannot specify modifiers on empty regexp"
  | .nestedEscape => "recursive escaping after \\c not allowed"
  | .tooNew => "expected newer version of sed"
  | .noPattern => "no previous regular expression"
  | .badPattern e => e.message
  | .noSuchLabel _ => "can't find label for jump to"

def ScriptFailure.message (f : ScriptFailure) : Octets :=
  let quoted := fun (space : String) (t : Octets) =>
    Octets.ofText (f.wording ++ space ++ "\x60") ++ t ++ ['\'']
  match f with
  | .unknownCommand c => quoted ": " [c]
  | .noSuchLabel name => quoted " " name
  | _ => Octets.ofText f.wording

/-- Where a label stands; behind all commands if its name is empty. Of two with one name the last
counts. -/
def placeOfLabel? (steps : Array Step) (name : Octets) : Option Nat :=
  if name = [] then some steps.size
  else (List.range steps.size).reverse.find? fun n =>
    (steps[n]?).any fun s => s.action == .label name

/-- The files that the commands write to, in order. -/
def Action.written? : Action → Option Octets
  | .writeFile path | .writeFirst path => some path
  | .substitute s => s.file
  | _ => none

end BitcodeReplay.Tool.Sed
