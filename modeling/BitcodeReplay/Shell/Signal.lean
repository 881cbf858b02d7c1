import BitcodeReplay.Shell.Session

/-!
Signals: their names and numbers, what they do to a process that does not expect them, and how a
shell tells that one has ended another process.
-/

namespace BitcodeReplay.Shell.Signal

/-- The names of the signals from one on. -/
def ordinary : List String :=
  ["HUP", "INT", "QUIT", "ILL", "TRAP", "ABRT", "BUS", "FPE", "KILL", "USR1", "SEGV", "USR2", "PIPE",
    "ALRM", "TERM", "16", "CHLD", "CONT", "STOP", "TSTP", "TTIN", "TTOU", "URG", "XCPU", "XFSZ",
    "VTALRM", "PROF", "WINCH", "IO", "PWR", "SYS", "32", "33"]

/-- The names of the signals for programs of their own, which count up from the first of them and then
down to the last. -/
def reserve : List String :=
  "RTMIN" :: ((List.range 15).map fun i => "RTMIN+" ++ toString (i + 1)) ++
    ((List.range 14).map fun i => "RTMAX-" ++ toString (14 - i)) ++ ["RTMAX"]

/-- The names of all signals; zero stands for the end of the shell. -/
def names : List String := "EXIT" :: ordinary ++ reserve

/-- One more than the highest number of a signal. -/
def bound : Nat := 65

def kill : Nat := 9

/-- What ends a process that has used up its memory for calls. -/
def violation : Nat := 11

def pipe : Nat := 13

def terminate : Nat := 15

def name (n : Nat) : String := (names[n]?).getD ""

/-- The number of a signal that is named, in any case of letters, or numbered; the least number that
is allowed is given. -/
def number? (least : Nat) (text : Octets) : Option Nat :=
  match Session.decimal? text with
  | some n => if n < bound then some n else none
  | none =>
    match names.findIdx? fun name => name.toList == text.map Char.toUpper with
    | some n => if least ≤ n then some n else none
    | none => none

/-- What a shell writes when a signal has ended another process. Two signals go without a word. -/
def ending (n : Nat) : String :=
  match n with
  | 1 => "Hangup\n"
  | 2 | 13 => ""
  | 3 => "Quit\n"
  | 4 => "Illegal instruction\n"
  | 5 => "Trace/breakpoint trap\n"
  | 6 => "Aborted\n"
  | 7 => "Bus error\n"
  | 8 => "Floating point exception\n"
  | 9 => "Killed\n"
  | 10 => "User defined signal 1\n"
  | 11 => "Segmentation fault\n"
  | 12 => "User defined signal 2\n"
  | 14 => "Alarm clock\n"
  | 15 => "Terminated\n"
  | 16 => "Stack fault\n"
  | 24 => "CPU time limit exceeded\n"
  | 25 => "File size limit exceeded\n"
  | 26 => "Virtual timer expired\n"
  | 27 => "Profiling timer expired\n"
  | 29 => "I/O possible\n"
  | 30 => "Power failure\n"
  | 31 => "Bad system call\n"
  | n =>
    if 34 ≤ n then "Real-time signal " ++ toString (n - 34) ++ "\n"
    else "Unknown signal " ++ toString n ++ "\n"

def proceed : Nat := 18

/-- A signal that stops a process until it is told to go on. -/
def stops (signal : Nat) : Bool := [19, 20, 21, 22].contains signal

/-- A signal that does nothing to a process that does not expect it. -/
def isHarmless (signal : Nat) : Bool := [0, 17, 18, 23, 28].contains signal

end BitcodeReplay.Shell.Signal
