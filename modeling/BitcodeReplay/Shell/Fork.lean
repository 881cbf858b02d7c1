import BitcodeReplay.Shell.Course
import BitcodeReplay.Shell.Signal

/-!
Processes that a shell or another program starts and waits for.
-/

namespace BitcodeReplay.Shell

open Act

/-- Ends a run that takes too long. -/
def starve {α : Type} (value : α) : Act α := do
  modify fun s => { s with flow := .starved }
  return value

/-- Tells how another process was ended, if it was not by itself. -/
def tellEnding : Ending → Act Unit
  | .signal n => modify (·.report (Octets.ofText (Signal.ending n)))
  | .status _ => pure ()

/-- Notes of the jobs how they have ended, and forgets their processes. -/
def Session.collect (s : Session) : Session :=
  let isOver := fun j : Job => j.status.isNone && j.processes.all s.toWorld.hasEnded
  let spent := s.jobs.filter isOver
  { s with
    toWorld := (spent.flatMap (·.processes)).foldl World.forget s.toWorld
    jobs := s.jobs.map fun j =>
      if isOver j then
        { j with status := some ((s.toWorld.ending? j.process).getD (.status 0)) }
      else j }

/-- Waits for a process that this one has started, and how it has ended. -/
def awaitEnding (number : Nat) : Act Ending := do
  await (·.hasEnded number)
  let ending := ((← get).toWorld.ending? number).getD (.status 0)
  modify fun s => (s.modifyWorld fun w => w.forget number).collect
  return ending

/-- Waits for processes in the background, or until a signal comes that is taken, and gives that. -/
def awaitAlert (numbers : List Nat) : Act (Option Nat) := do
  let isOver := fun w : World => numbers.all w.hasEnded
  let w := (← get).published
  modify fun s => { s with toWorld := w }
  if !isOver w then pause ⟨isOver, none, true⟩
  let s ← get
  if isOver s.toWorld then return none
  else return (s.signals.find? fun p => p.1 == s.process).map (·.2)

/-- Runs something as a process of its own, from a state that is prepared for it, and how it ended.
Its status is left. -/
def forkedFrom (prepare : Session → Session) (act : Act Unit) : Act Ending := do
  let ending ← awaitEnding (← fork prepare act)
  setStatus ending.code
  return ending

def forked (act : Act Unit) : Act Ending := forkedFrom id act

/-- Gives up the job whose number goes to a process that the shell waits for. -/
def takeNumber : Act Unit := modify fun s => if s.jobs = [] then s else s.freeNumber.1

/-- Runs something as a process of its own, and tells how it was ended. -/
def separate (act : Act Unit) : Act Unit := do
  takeNumber
  tellEnding (← forked act)

/-- What is left of a shell when its process starts another program. -/
def Session.bare (s : Session) : Session :=
  { s with
    bindings := s.bindings.filter fun p => p.2.exported && p.2.value.isSome
    functions := []
    aliases := []
    locals := none
    outerOptions := none
    options := []
    deaf := s.unheard
    traps := []
    aside := []
    leaving := none
    builtin := none
    tracked := []
    loops := 0
    calls := 0
    handlers := 0
    failed := none
    clock := s.clock + startTime }

/-- Keeps streams for later while something runs. -/
def keepingAside {α : Type} (streams : List Nat) (act : Act α) : Act α := do
  let aside := (← get).aside
  modify fun s => { s with aside := streams ++ aside }
  let result ← act
  modify fun s => { s with aside := aside }
  return result

/-- Runs something and then leads all channels where they led before. -/
def keepingChannels {α : Type} (act : Act α) : Act α := do
  let channels := (← get).channels
  let result ← keepingAside (channels.map (·.2)) act
  modify fun s => { s with channels := channels }
  return result

end BitcodeReplay.Shell
