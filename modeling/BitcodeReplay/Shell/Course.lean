import BitcodeReplay.Shell.Session

/-!
What a process does, up to the points where it waits or starts another process. In between nothing
else happens; at those points the others take their turns.
-/

namespace BitcodeReplay.Shell

/-- What a process waits for: a state that others bring about, or a time. One that is `alert` also goes
on when a signal comes that it takes. -/
structure Wait where
  isMet : World → Bool
  wake : Option Int
  alert : Bool

/-- A process as a whole. -/
inductive Thread where
  | ended (w : World)
  | paused (wait : Wait) (w : World) (resume : World → Thread)
  | forked (number : Nat) (child : World → Thread) (w : World) (resume : World → Thread)

/-- A part of a process that leaves a value. -/
inductive Course (α : Type) where
  | done (value : α) (s : Session)
  | paused (wait : Wait) (w : World) (resume : World → Course α)
  | forked (number : Nat) (child : World → Thread) (w : World) (resume : World → Course α)

namespace Course

variable {α β γ : Type}

/-- Goes on with the value that a part leaves. -/
def next : Course α → (α → Session → Course β) → Course β
  | .done a s, f => f a s
  | .paused wait w resume, f => .paused wait w fun w => (resume w).next f
  | .forked n child w resume, f => .forked n child w fun w => (resume w).next f

theorem next_done (c : Course α) : c.next .done = c := by
  induction c with
  | done a s => rfl
  | paused wait w resume ih => simp [next, ih]
  | forked n child w resume ih => simp [next, ih]

theorem next_next (c : Course α) (f : α → Session → Course β) (g : β → Session → Course γ) :
    (c.next f).next g = c.next fun a s => (f a s).next g := by
  induction c with
  | done a s => rfl
  | paused wait w resume ih => simp [next, ih]
  | forked n child w resume ih => simp [next, ih]

end Course

/-- What a process does from a state on. -/
def Act (α : Type) := Session → Course α

namespace Act

variable {α β : Type}

@[inline] def done (a : α) : Act α := fun s => .done a s

@[inline] def andThen (act : Act α) (f : α → Act β) : Act β := fun s => (act s).next f

instance instMonadAct : Monad Act where
  pure := done
  bind := andThen

instance instMonadStateOfAct : MonadStateOf Session Act where
  get := fun s => .done s s
  set := fun s _ => .done () s
  modifyGet := fun f s => let (a, s) := f s; .done a s

instance instLawfulMonadAct : LawfulMonad Act := LawfulMonad.mk' Act
  (fun act => funext fun s => Course.next_done (act s))
  (fun _ _ => rfl)
  (fun act _ _ => funext fun s => Course.next_next (act s) _ _)
  (fun _ _ => rfl)
  (fun _ _ => rfl)

end Act

/-- The state that others see when a process stops for a while. -/
def Session.published (s : Session) : World :=
  s.toWorld.modifyProcess s.process fun p =>
    { p with
      streams := s.held
      caught := (s.traps.filter fun t => !t.2.isEmpty).map (·.1)
      deaf := s.unheard }

/-- How a process has ended. -/
def Session.ending (s : Session) : Ending :=
  match s.flow with
  | .killed n => .signal n
  | _ => .status (s.status % 256)

/-- The state that a process leaves. -/
def Session.left (s : Session) : World :=
  let w := s.toWorld.finish s.process s.ending
  if s.flow = .starved then { w with starved := true } else w

/-- The process of which this is all. -/
def Course.thread : Course Unit → Thread
  | .done () s => .ended s.left
  | .paused wait w resume => .paused wait w fun w => (resume w).thread
  | .forked n child w resume => .forked n child w fun w => (resume w).thread

/-- How many microseconds it takes to start a process, to start a program in it, and to run as many
commands as are run in one turn. -/
def forkTime : Nat := 200

def startTime : Nat := 500

def turnTime : Nat := 500

/-- How many commands are run in one turn. -/
def turnLength : Nat := 100

/-- What a new process keeps of the one that it comes from. Signals that are ignored stay so. -/
def Session.child (s : Session) (number : Nat) : Session :=
  { s with
    process := number
    traps := s.traps.filter fun p => p.2.isEmpty
    leaving := none
    ticks := 0
    jobs := [] }

/-- The group that a process belongs to. -/
def Session.group (s : Session) : Nat := (s.toWorld.process? s.process).elim s.process (·.group)

namespace Act

def setStatus (n : Nat) : Act Unit := modify fun s => { s with status := n }

/-- A complaint of the shell or of a builtin, and the status that it leaves. -/
def complain (status : Nat) (text : String) : Act Unit :=
  modify fun s => { s.complain text with status := status }

/-- A failure that ends the shell, or the builtin that may fail. -/
def abort (text : String) : Act Unit := modify (·.abort text)

/-- Stops until something has come about. -/
def pause (wait : Wait) : Act Unit := fun s =>
  .paused wait s.published fun w => .done () { s with toWorld := w }

/-- Lets the others have their turn. -/
def yield : Act Unit := pause ⟨fun _ => true, none, false⟩

/-- Lets some time go by, in which the others have their turn. -/
def pass : Act Unit := do
  modify fun s => { s with clock := s.clock + turnTime }
  yield

/-- Notes that a command is run. After some of them the others have their turn. -/
def tick : Act Unit := do
  let s ← get
  if s.ticks < turnLength then set { s with ticks := s.ticks + 1 }
  else
    set { s with ticks := 0 }
    pass

/-- Stops unless something has come about already. -/
def await (isMet : World → Bool) : Act Unit := do
  let w := (← get).published
  modify fun s => { s with toWorld := w }
  if isMet w then pure () else pause ⟨isMet, none, false⟩

/-- Stops until a time. -/
def awaitTime (time : Int) : Act Unit := pause ⟨fun _ => false, some time, false⟩

/-- Runs something as a process of its own, beside this one, from a state that is prepared for it. Its
number is left. -/
def fork (prepare : Session → Session) (act : Act Unit) : Act Nat := fun s =>
  let n := s.count + 1
  let child := prepare ({ s with count := n, clock := s.clock + forkTime }.child n)
  let known : Process := ⟨n, s.process, s.group, child.held, [], s.unheard, false, none⟩
  let w := { child.toWorld with processes := child.processes ++ [known] }
  .forked n (fun w => (act { child with toWorld := w }).thread) w
    fun w => .done n { s with toWorld := w }

/-- Waits until a pipe that has been written to has room again. A writer that nobody reads from any
more is ended. -/
def settle (stream : Nat) : Act Unit := do
  match (← get).toWorld.pipeOf? stream with
  | none => pure ()
  | some n =>
    let hasRoom := fun w : World => (w.pipes[n]?).all Pipe.hasRoom
    if !hasRoom (← get).toWorld then
      await fun w => hasRoom w || !w.hasEnd n true
      modify fun s => if s.isUnread n && !hasRoom s.toWorld then s.breakPipe else s

/-- Writes to a stream, and waits until what has been written fits. -/
def writeTo (stream : Nat) (text : Octets) : Act Unit := do
  modify (·.writeStream stream text)
  settle stream

/-- Writes to the output of a command. -/
def put (text : Octets) : Act Unit := do
  modify (·.write 1 text)
  match (← get).channels.lookup 1 with
  | some stream => settle stream
  | none => pure ()

/-- Writes a line to the output of a command. -/
def putLine (text : Octets) : Act Unit := put (text ++ ['\n'])

/-- Waits until enough can be read from a stream, or all that ever will be. Meanwhile writers need not
wait for room. -/
def awaitInput (stream : Nat) (enough : Pipe → Bool) : Act Unit := do
  match (← get).toWorld.pipeOf? stream with
  | none => pure ()
  | some n =>
    let widen := fun wide : Bool => modify fun s : Session =>
      { s with pipes := s.pipes.modify n fun p => { p with wide := wide } }
    widen true
    await fun w => (w.pipes[n]?).all enough || w.isOver n
    widen false

/-- Waits until so many lines can be read from a channel, or all that ever will be. -/
def awaitLines (channel count : Nat) : Act Unit := do
  match (← get).channels.lookup channel with
  | some stream => awaitInput stream (·.hasLines count)
  | none => pure ()

/-- More than anything writes that comes to an end. -/
def endless : Nat := 1048576

/-- Waits until all can be read from a stream that ever will be. -/
def awaitAll (stream : Nat) : Act Unit := awaitInput stream fun p => endless ≤ p.size

end Act

end BitcodeReplay.Shell
