import BitcodeReplay.Shell.Course
import BitcodeReplay.Shell.Signal

/-!
Processes that run beside each other. They take turns in the order in which they have come to wait;
when all of them wait for a time, the clock goes on to the first.
-/

namespace BitcodeReplay.Shell

/-- A process that waits. -/
structure Strand where
  number : Nat
  wait : Wait
  resume : World → Thread

/-- What is shared, and the processes that wait, the one that has waited longest first. -/
structure Kernel where
  world : World
  strands : List Strand

namespace Kernel

/-- Runs a process until it waits or has ended. Those that it starts come before it. -/
def take (number : Nat) : Thread → List Strand → Kernel
  | .ended w, others => ⟨w, others⟩
  | .paused wait w resume, others => ⟨w, others ++ [⟨number, wait, resume⟩]⟩
  | .forked n child w resume, others =>
    take number (resume w) (others ++ [⟨n, ⟨fun _ => true, none, false⟩, child⟩])

/-- What a signal does to a process. One that is `late` waits until the process goes on. -/
inductive Effect where
  | nothing
  | late
  | stopped (now : Bool)
  | ended
  deriving DecidableEq, Repr

def effect (w : World) (number signal : Nat) : Effect :=
  match w.process? number with
  | none => .nothing
  | some p =>
    if p.ending.isSome then .nothing
    else if signal = Signal.kill then .ended
    else if signal = Signal.proceed && p.stopped then .stopped false
    else if p.stopped then .late
    else if signal = 19 then .stopped true
    else if p.deaf.contains signal then .nothing
    else if p.caught.contains signal then .late
    else if Signal.stops signal then .stopped true
    else if Signal.isHarmless signal then .nothing
    else .ended

/-- Lets the signals do what they do to those that wait. -/
def deliver (k : Kernel) : Kernel :=
  k.world.signals.foldl
    (fun k (number, signal) =>
      let w := { k.world with signals := k.world.signals.erase (number, signal) }
      match effect k.world number signal with
      | .late => k
      | .nothing => { k with world := w }
      | .stopped now =>
        { k with world := w.modifyProcess number fun p => { p with stopped := now } }
      | .ended =>
        ⟨w.finish number (.signal signal), k.strands.filter fun s => s.number != number⟩) k

/-- Whether a process can go on. -/
def isReady (w : World) (s : Strand) : Bool :=
  !((w.process? s.number).any (·.stopped)) &&
    (s.wait.isMet w || s.wait.wake.any (· ≤ w.clock) ||
      (s.wait.alert && w.signals.any fun p => p.1 == s.number))

/-- The first time at which a process that waits for one goes on. -/
def nextTime? (k : Kernel) : Option Int :=
  ((k.strands.filterMap (·.wait.wake)).filter (k.world.clock < ·)).foldl
    (fun (known : Option Int) t => some (known.elim t (min t))) none

/-- Lets the first process go on that can, with the clock at the time for which it waits. -/
def step? (k : Kernel) : Option Kernel :=
  let k := k.deliver
  match k.strands.findIdx? (isReady k.world) with
  | some i =>
    (k.strands[i]?).map fun s => take s.number (s.resume k.world) (k.strands.eraseIdx i)
  | none =>
    k.nextTime?.map fun t => { k with world := { k.world with clock := max t k.world.clock } }

/-- Runs processes until something has come about, or none of them can go on. The first argument bounds
the steps. -/
def run (isOver : World → Bool) : Nat → Kernel → Kernel
  | 0, k => k
  | bound + 1, k =>
    if k.world.starved || isOver k.world then k
    else
      match k.step? with
      | some k => run isOver bound k
      | none => k

end Kernel

end BitcodeReplay.Shell
