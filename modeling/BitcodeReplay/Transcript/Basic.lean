import BitcodeReplay.Compiler

/-!
A build transcript: the compiler commands of a build log, by the target that ran them.
-/

namespace BitcodeReplay

/-- Targets stand in the order of their first announcement, each with its commands in the order of
the log. -/
structure Transcript where
  targets : List (String × List CapturedCommand)
  buildCount : Nat
  deriving DecidableEq, Repr

namespace Transcript

def empty : Transcript := ⟨[], 0⟩

/-- The commands of a target, none if the target is unknown. -/
def commandsFor (t : Transcript) (target : String) : List CapturedCommand :=
  (t.targets.lookup target).getD []

def targetNames (t : Transcript) : List String := t.targets.map (·.1)

def totalCommands (t : Transcript) : Nat := (t.targets.flatMap (·.2)).length

/-- Adds commands at the end of an entry, which is made at the end of the list if it is new. -/
def extendEntry (target : String) (commands : List CapturedCommand) :
    List (String × List CapturedCommand) → List (String × List CapturedCommand)
  | [] => [(target, commands)]
  | (name, known) :: rest =>
    if name = target then (name, known ++ commands) :: rest
    else (name, known) :: extendEntry target commands rest

/-- Adds commands to those of a target. -/
def extend (t : Transcript) (target : String) (commands : List CapturedCommand) : Transcript :=
  { t with targets := extendEntry target commands t.targets }

/-- Records a target without a command of its own. -/
def announce (t : Transcript) (target : String) : Transcript := t.extend target []

def countBuild (t : Transcript) : Transcript := { t with buildCount := t.buildCount + 1 }

@[simp] theorem buildCount_extend (t : Transcript) (n : String) (cs : List CapturedCommand) :
    (t.extend n cs).buildCount = t.buildCount := rfl

@[simp] theorem targets_countBuild (t : Transcript) : t.countBuild.targets = t.targets := rfl

theorem commandsFor_extend (t : Transcript) (n m : String) (cs : List CapturedCommand) :
    (t.extend n cs).commandsFor m = t.commandsFor m ++ if m = n then cs else [] := by
  obtain ⟨targets, count⟩ := t
  simp only [commandsFor, extend]
  induction targets with
  | nil =>
    by_cases h : m = n
    · simp [extendEntry, h]
    · simp [extendEntry, List.lookup_cons, beq_false_of_ne h, h]
  | cons entry rest ih =>
    obtain ⟨name, known⟩ := entry
    by_cases hm : m = name
    · subst hm
      by_cases hn : m = n <;> simp [extendEntry, hn]
    · by_cases hn : name = n
      · subst hn
        simp [extendEntry, List.lookup_cons, beq_false_of_ne hm, hm]
      · simpa [extendEntry, hn, List.lookup_cons, beq_false_of_ne hm] using ih

end Transcript

end BitcodeReplay
