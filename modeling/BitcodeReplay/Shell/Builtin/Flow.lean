import BitcodeReplay.Shell.OptionWords

/-!
The builtins that say what comes next: leaving loops, functions and the shell, and going on with the
next argument.
-/

namespace BitcodeReplay.Shell.Builtin

open Act

/-- The number that a word gives, if it is one; otherwise the shell fails. -/
def numberOf (word : Octets) : Act (Option Nat) := do
  match Session.count? word with
  | some n => return some n
  | none =>
    abort ("Illegal number: " ++ word.toText)
    return none

/-- Leaves loops or goes on with them, as many as a word says. -/
def leaveLoop (flow : Nat → Flow) (words : List Octets) : Act Unit := do
  match words.head?.elim (some 1) Session.count? with
  | some (n + 1) =>
    modify fun s =>
      { s with
        status := 0
        flow := if s.loops = 0 then .running else flow (min (n + 1) s.loops) }
  | _ => abort ("Illegal number: " ++ (words.headD []).toText)

/-- Goes on with a status that a word may give. -/
def finish (flow : Flow) (status : Session → Nat) (words : List Octets) : Act Unit := do
  match words with
  | [] => modify fun s => { s with status := status s, flow := flow }
  | word :: _ =>
    match ← numberOf word with
    | some n => modify fun s => { s with status := n, leaving := s.leaving.map fun _ => n, flow := flow }
    | none => pure ()

/-- Ends a function with a status, the last one unless a word gives another. -/
def leaveFunction : List Octets → Act Unit := finish .returning fun s => s.status

/-- Ends the shell with a status. In a trap, that is the one from before. -/
def leaveShell : List Octets → Act Unit := finish .exiting fun s => s.leaving.getD s.status

def shift (words : List Octets) : Act Unit := do
  match ← numberOf (words.headD ['1']) with
  | none => pure ()
  | some n =>
    let s ← get
    if n ≤ s.arguments.length then
      set { s with arguments := s.arguments.drop n, status := 0, optionIndex := 1, optionOffset := none }
    else abort "can't shift that many"

/-- The time that the shell and its children have taken, which is too short to be told. -/
def times : Act Unit := do
  setStatus 0
  putLine (Octets.ofText "0m0.000000s 0m0.000000s")
  putLine (Octets.ofText "0m0.000000s 0m0.000000s")

end BitcodeReplay.Shell.Builtin
