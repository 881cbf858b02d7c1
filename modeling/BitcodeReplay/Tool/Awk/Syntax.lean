import BitcodeReplay.Numeric.Elementary
import BitcodeReplay.Text.Utf8
import BitcodeReplay.Text.Regex

/-!
Programs that select records and act on them.
-/

namespace BitcodeReplay.Tool.Awk

open Numeric (Signed)

/-- A variable of the whole program, or of the function that is called, by its place. -/
inductive Var where
  | shared (place : Nat)
  | own (place : Nat)
  deriving DecidableEq, Repr

inductive Comparison where
  | less
  | atMost
  | same
  | differs
  | greater
  | atLeast
  deriving DecidableEq, Repr

inductive Operation where
  | add
  | subtract
  | multiply
  | divide
  | remainder
  | power
  deriving DecidableEq, Repr

/-- The functions that every program has. -/
inductive Builtin where
  | atan2
  | close
  | cos
  | exp
  | flush
  | index
  | int
  | length
  | log
  | lookFor
  | lower
  | makeTime
  | random
  | seed
  | sin
  | split
  | sqrt
  | format
  | formatTime
  | substitute (all : Bool)
  | substring
  | system
  | time
  | upper
  deriving DecidableEq, Repr

/-- Where the next record is read from: the input of the program, a file, or the output of a command. -/
inductive Origin where
  | input
  | file
  | command
  deriving DecidableEq, Repr

/-- Where output goes: into a file, behind what a file holds, or into a command. -/
inductive Target where
  | file
  | behind
  | command
  deriving DecidableEq, Repr

inductive Expr where
  | number (n : Signed)
  | text (t : Octets)
  | regex (r : Text.Regex)
  | var (v : Var)
  | element (v : Var) (keys : List Expr)
  | field (place : Expr)
  | assign (target value : Expr)
  | update (o : Operation) (target value : Expr)
  | step (o : Operation) (before : Bool) (target : Expr)
  | choice (condition yes no : Expr)
  | either (a b : Expr)
  | both (a b : Expr)
  | isIn (keys : List Expr) (v : Var)
  | matched (expected : Bool) (value pattern : Expr)
  | compare (c : Comparison) (a b : Expr)
  | join (a b : Expr)
  | calculate (o : Operation) (a b : Expr)
  | notTrue (a : Expr)
  | minus (a : Expr)
  | plus (a : Expr)
  | call (function : Nat) (arguments : List Expr)
  | builtin (b : Builtin) (arguments : List Expr)
  | getline (origin : Origin) (source : Option Expr) (target : Option Expr)
  | group (items : List Expr)
  deriving Repr

/-- Where the output of a statement goes. -/
abbrev Redirection := Option (Target × Expr)

inductive Statement where
  | nothing
  | value (e : Expr)
  | print (items : List Expr) (to? : Redirection)
  | printf (items : List Expr) (to? : Redirection)
  | delete (v : Var) (keys : List Expr)
  | deleteAll (v : Var)
  | choice (condition : Expr) (yes no : Statement)
  | loop (condition : Option Expr) (step body : Statement)
  | loopAfter (body : Statement) (condition : Expr)
  | each (target v : Var) (body : Statement)
  | block (all : List Statement)
  | next
  | nextFile
  | exit (status : Option Expr)
  | leave (value : Option Expr)
  | stop
  | proceed
  deriving Repr

/-- What selects the records on which something is done. A range has a place where it is kept whether
a record lies in it. -/
inductive Selector where
  | always
  | condition (e : Expr)
  | range (place : Nat) (first last : Expr)
  deriving Repr

structure Rule where
  selector : Selector
  action : Statement
  deriving Repr

structure Function where
  name : String
  parameters : Nat
  body : Statement
  deriving Repr

/-- A program: what is done before the first record, for each, and behind the last. `shared` are the
names of its variables, and `ranges` is how many rules select ranges. -/
structure Program where
  first : List Statement
  rules : List Rule
  last : List Statement
  functions : Array Function
  shared : Array String
  ranges : Nat

/-- The variables that are known to every program, each at its place. -/
def knownNames : List String :=
  ["NF", "NR", "FNR", "FS", "OFS", "ORS", "RS", "FILENAME", "SUBSEP", "RSTART", "RLENGTH", "CONVFMT",
    "OFMT", "ENVIRON", "ARGC", "ARGV"]

def placeOf (name : String) : Nat := (knownNames.idxOf? name).getD 0

end BitcodeReplay.Tool.Awk
