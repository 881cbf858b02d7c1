import BitcodeReplay.FileTree.Basic
import BitcodeReplay.FileTree.Edit
import BitcodeReplay.Text.Utf8

/-!
What running processes share: the tree, the streams that they have opened in it, with what they lead
to and why they take or give nothing, the pipes between them, what is known of each of them, and the
signals that they send to each other.
-/

namespace BitcodeReplay.Shell

/-- What a stream leads to. -/
inductive Device where
  | file (loc : Location)
  | directory (loc : Location)
  | pipe (number : Nat)
  | null
  | zero
  | full
  deriving DecidableEq, Repr

/-- An opened stream. All channels that lead to it share its place in the file. -/
structure Stream where
  device : Device
  offset : Nat
  readable : Bool
  writable : Bool
  appends : Bool
  deriving DecidableEq, Repr

/-- What has been written into a pipe and how much of it has been read. A pipe that is `kept` is read
to its end by somebody outside. One that is `wide` is being emptied by a reader that keeps what it has
taken, so that it always has room. `readers` and `writers` count how often the pipe has been opened. -/
structure Pipe where
  content : ByteArray
  taken : Nat
  kept : Bool
  wide : Bool
  readers : Nat
  writers : Nat

/-- Where the first lines behind a place end, given how many they are; nothing if there are fewer. -/
def lineEnd? (bytes : ByteArray) (start : Nat) : Nat → Option Nat
  | 0 => some start
  | n + 1 => (bytes.findIdx? (· == 10) start).bind fun i => lineEnd? bytes (i + 1) n

namespace Pipe

/-- Whether so many whole lines wait in a pipe. -/
def hasLines (p : Pipe) (n : Nat) : Bool := (lineEnd? p.content p.taken n).isSome

/-- How many bytes wait in a pipe. -/
def size (p : Pipe) : Nat := p.content.size - p.taken

/-- A pipe that nobody has opened. -/
def closed : Pipe := ⟨.empty, 0, false, false, 0, 0⟩

/-- How much a pipe holds before its writers have to wait. -/
def capacity : Nat := 65536

/-- Whether a writer may go on. -/
def hasRoom (p : Pipe) : Bool := p.kept || p.wide || p.size ≤ capacity

/-- Goes on behind some bytes, and drops what has been read when that is much. -/
def skip (p : Pipe) (count : Nat) : Pipe :=
  let taken := p.taken + count
  if p.content.size ≤ taken then { p with content := .empty, taken := 0 }
  else if capacity ≤ taken then
    { p with content := p.content.extract taken p.content.size, taken := 0 }
  else { p with taken := taken }

end Pipe

/-- Why a stream takes or gives nothing. -/
inductive StreamFailure where
  | badDescriptor
  | noSpace
  | isDirectory
  | brokenPipe
  deriving DecidableEq, Repr

def StreamFailure.message : StreamFailure → String
  | .badDescriptor => "Bad file descriptor"
  | .noSpace => "No space left on device"
  | .isDirectory => "Is a directory"
  | .brokenPipe => "Broken pipe"

/-- How a process ends. -/
inductive Ending where
  | status (n : Nat)
  | signal (n : Nat)
  deriving DecidableEq, Repr

/-- The status that stands for an ending. -/
def Ending.code : Ending → Nat
  | .status n => n
  | .signal n => 128 + n

/-- A process as the others see it: those it comes from and runs with, the streams that it has open,
the signals that it takes and those that it does not hear, whether it has been stopped, and how it has
ended, with the place of its ending among all endings. -/
structure Process where
  number : Nat
  parent : Nat
  group : Nat
  streams : List Nat
  caught : List Nat
  deaf : List Nat
  stopped : Bool
  ending : Option (Nat × Ending)
  deriving DecidableEq, Repr

/-- The state that processes share. Modes and times are kept only where they are not what every new
entry has. `twins` are the places of files that stand at several, and `pipePlaces` the pipes behind those
that have a name. `processes` are those that run and those that nobody has asked after since they
ended; `count` is the number of the latest. `signals` are on their way to processes. `hidden` counts
the files that were removed while they were open: they stay where no path leads. The clock shows
microseconds. A run that is `starved` has used up its steps. -/
structure World where
  tree : FileTree
  modes : List (Location × Nat)
  times : List (Location × Int)
  twins : List (List Location)
  pipePlaces : List (Location × Nat)
  streams : Array Stream
  pipes : Array Pipe
  clock : Int
  processes : List Process
  count : Nat
  signals : List (Nat × Nat)
  hidden : Nat
  endings : Nat
  starved : Bool

namespace World

/-- The time in milliseconds. -/
def now (w : World) : Int := w.clock / 1000

/-- The mode of an entry. -/
def modeOf (w : World) (loc : Location) (e : Entry) : Nat :=
  match w.modes.lookup loc with
  | some mode => mode
  | none =>
    match e with
    | .file _ true | .dir => 0o755
    | .file _ false | .special .pipe => 0o644
    | .special _ => 0o666
    | .link _ => 0o777

def timeOf (w : World) (loc : Location) : Int := (w.times.lookup loc).getD 0

/-- All places of the file at a location. -/
def placesOf (w : World) (loc : Location) : List Location :=
  (w.twins.find? fun places => places.contains loc).getD [loc]

/-- Puts an entry at all places of a file. -/
def putAt (w : World) (loc : Location) (e : Entry) : World :=
  { w with tree := (w.placesOf loc).foldl (fun t l => t.put l e) w.tree }

def setMode (w : World) (loc : Location) (mode : Nat) : World :=
  let places := w.placesOf loc
  let w := { w with
    modes := places.foldl (fun modes l => (l, mode) :: modes)
      (w.modes.filter fun p => !places.contains p.1) }
  match w.tree.get? loc with
  | some (.file bytes _) => w.putAt loc (.file bytes (mode &&& 0o111 != 0))
  | _ => w

def setTime (w : World) (loc : Location) (time : Int) : World :=
  let places := w.placesOf loc
  { w with
    times := places.foldl (fun times l => (l, time) :: times)
      (w.times.filter fun p => !places.contains p.1) }

/-- Gives a file one more place. -/
def addPlace (w : World) (loc other : Location) : World :=
  match w.tree.get? loc with
  | some e =>
    let places := w.placesOf loc ++ [other]
    { w with
      tree := w.tree.put other e
      modes := ((w.modes.lookup loc).map fun mode => (other, mode)).toList ++ w.modes
      times := ((w.times.lookup loc).map fun time => (other, time)).toList ++ w.times
      twins := places :: w.twins.filter fun known => !known.contains loc }
  | none => w

/-- Notes that an entry has been written to now, as exactly as such times are kept. -/
def stamp (w : World) (loc : Location) : World := w.setTime loc (w.now / 4 * 4)

/-- The place of a location after everything at and below `source` has moved to `target`. -/
def movedTo (source target loc : Location) : Location :=
  if FileTree.isWithin loc source then target ++ loc.drop source.length else loc

/-- Lets what is known of the entries at and below a location follow them to another. -/
def follow (w : World) (source target : Location) : World :=
  let moved := movedTo source target
  let isLeft := fun l => FileTree.isWithin l source || !FileTree.isWithin l target
  { w with
    modes := (w.modes.filter fun p => isLeft p.1).map fun p => (moved p.1, p.2)
    times := (w.times.filter fun p => isLeft p.1).map fun p => (moved p.1, p.2)
    twins := w.twins.map fun places => (places.filter isLeft).map moved
    pipePlaces := (w.pipePlaces.filter fun p => isLeft p.1).map fun p => (moved p.1, p.2)
    streams := w.streams.map fun s =>
      match s.device with
      | .file loc => { s with device := .file (moved loc) }
      | .directory loc => { s with device := .directory (moved loc) }
      | _ => s }

/-- A location that no path leads to. -/
def hiddenPlace (n : Nat) : Location := ["", toString n]

def isOpen (w : World) (loc : Location) : Bool :=
  w.streams.any fun s => s.device == .file loc

/-- Lets the streams into one place of a file lead to another. -/
def reopen (w : World) (loc other : Location) : World :=
  { w with streams := w.streams.map fun s =>
      if s.device == .file loc then { s with device := .file other } else s }

/-- Removes an entry and all below it. A file that is open is kept, at another of its places or out of
reach. -/
def erase (w : World) (top : Location) : World :=
  let forget := fun (w : World) =>
    { w with
      tree := w.tree.erase top
      modes := w.modes.filter fun p => !FileTree.isWithin p.1 top
      times := w.times.filter fun p => !FileTree.isWithin p.1 top
      twins := w.twins.map fun places => places.filter fun l => !FileTree.isWithin l top
      pipePlaces := w.pipePlaces.filter fun p => !FileTree.isWithin p.1 top }
  if w.isOpen top then
    match (w.placesOf top).filter (· != top) with
    | other :: _ => forget (w.reopen top other)
    | [] =>
      let place := hiddenPlace w.hidden
      let w := { w with tree := w.tree.relocate top place, hidden := w.hidden + 1 }
      forget (w.follow top place)
  else forget w

/-- Moves an entry like `FileTree.rename`, with all that is known of it. -/
def rename (w : World) (source target : String) : Except FileError World := do
  let moved ← w.tree.rename source target
  match w.tree.resolve false source, w.tree.walk false FileTree.maxLinks [] (Path.names target) with
  | .ok (.found loc _), .ok (.found dest _) =>
    if dest = loc then return w
    if w.isOpen dest then
      let w := w.erase dest
      return { w with tree := ← w.tree.rename source target }.follow loc dest
    return { w with tree := moved }.follow loc dest
  | .ok (.found loc _), .ok (.free dest) => return { w with tree := moved }.follow loc dest
  | _, _ => return { w with tree := moved }

/-- The bytes of a file with some written at a place. -/
def overwritten (old new : ByteArray) (offset : Nat) : ByteArray :=
  let gap : ByteArray := ⟨(List.replicate (offset - old.size) (0 : UInt8)).toArray⟩
  old.extract 0 offset ++ gap ++ new ++ old.extract (offset + new.size) old.size

/-- Writes to a stream. -/
def write (w : World) (number : Nat) (text : Octets) : Except StreamFailure World :=
  match w.streams[number]? with
  | none => .error .badDescriptor
  | some s =>
    if !s.writable then .error .badDescriptor
    else
      match s.device with
      | .null | .zero => .ok w
      | .full => if text = [] then .ok w else .error .noSpace
      | .directory _ => .error .badDescriptor
      | .pipe n =>
        .ok { w with
          pipes := w.pipes.modify n fun p => { p with content := p.content ++ text.toBytes } }
      | .file loc =>
        match w.tree.get? loc with
        | some (.file bytes executable) =>
          let new := text.toBytes
          let offset := if s.appends then bytes.size else s.offset
          let w := { w.putAt loc (.file (overwritten bytes new offset) executable) with
            streams := w.streams.modify number fun s => { s with offset := offset + new.size } }
          .ok (if text = [] then w else w.stamp loc)
        | _ => .ok w

/-- What can be read from a stream without taking it. -/
def pending (w : World) (number : Nat) : Except StreamFailure Octets :=
  match w.streams[number]? with
  | none => .error .badDescriptor
  | some s =>
    if !s.readable then .error .badDescriptor
    else
      match s.device with
      | .null | .zero | .full => .ok []
      | .directory _ => .error .isDirectory
      | .pipe n =>
        match w.pipes[n]? with
        | none => .ok []
        | some p => .ok (Octets.ofBytes (p.content.extract p.taken p.content.size))
      | .file loc =>
        match w.tree.get? loc with
        | some (.file bytes _) => .ok (Octets.ofBytes (bytes.extract s.offset bytes.size))
        | _ => .ok []

/-- Goes on behind some bytes of a stream. -/
def skip (w : World) (number count : Nat) : World :=
  match w.streams[number]? with
  | none => w
  | some s =>
    match s.device with
    | .pipe n => { w with pipes := w.pipes.modify n fun p => p.skip count }
    | .file _ =>
      { w with streams := w.streams.modify number fun s => { s with offset := s.offset + count } }
    | _ => w

/-- The first bytes that can be read from a stream, at most as many as given, and whether more can
be read behind them. -/
def peek (w : World) (number count : Nat) : Octets :=
  match w.streams[number]? with
  | none => []
  | some s =>
    if !s.readable then []
    else
      match s.device with
      | .zero | .full => List.replicate count '\x00'
      | .null | .directory _ => []
      | .pipe n =>
        match w.pipes[n]? with
        | none => []
        | some p => Octets.ofBytes (p.content.extract p.taken (p.taken + count))
      | .file loc =>
        match w.tree.get? loc with
        | some (.file bytes _) => Octets.ofBytes (bytes.extract s.offset (s.offset + count))
        | _ => []

/-- The first lines that can be read from a stream, at most as many as given. -/
def peekLines (w : World) (number count : Nat) : Octets :=
  let lines := fun (bytes : ByteArray) (start : Nat) =>
    Octets.ofBytes (bytes.extract start ((lineEnd? bytes start count).getD bytes.size))
  match w.streams[number]? with
  | none => []
  | some s =>
    if !s.readable then []
    else
      match s.device with
      | .null | .zero | .full | .directory _ => []
      | .pipe n => (w.pipes[n]?).elim [] fun p => lines p.content p.taken
      | .file loc =>
        match w.tree.get? loc with
        | some (.file bytes _) => lines bytes s.offset
        | _ => []

/-- Whether what has been read from a stream can be given back. -/
def canRewind (w : World) (number : Nat) : Bool :=
  match w.streams[number]? with
  | none => false
  | some s =>
    match s.device with
    | .file _ => true
    | _ => false

/-- Opens one more stream, and its number. -/
def openStream (w : World) (s : Stream) : World × Nat :=
  ({ w with streams := w.streams.push s }, w.streams.size)

/-- Makes a pipe with some content, and the number of a stream that writes into it and of one that
reads from it. -/
def openPipe (w : World) (content : ByteArray) : World × Nat × Nat :=
  let n := w.pipes.size
  let k := w.streams.size
  ({ w with
    pipes := w.pipes.push { Pipe.closed with content := content }
    streams := (w.streams.push ⟨.pipe n, 0, false, true, false⟩).push
      ⟨.pipe n, 0, true, false, false⟩ }, k, k + 1)

/-- The pipe that a stream leads to, if it leads to one. -/
def pipeOf? (w : World) (stream : Nat) : Option Nat :=
  match (w.streams[stream]?).map Stream.device with
  | some (.pipe n) => some n
  | _ => none

/-- Whether one of some streams is an end of a pipe, the one that reads or the one that writes. -/
def isHeld (w : World) (n : Nat) (reads : Bool) (streams : List Nat) : Bool :=
  streams.any fun k =>
    match w.streams[k]? with
    | some s => s.device == .pipe n && (if reads then s.readable else s.writable)
    | none => false

/-- Whether a process has an end of a pipe open. -/
def hasEnd (w : World) (n : Nat) (reads : Bool) : Bool :=
  ((w.pipes[n]?).any fun p => reads && p.kept) || w.processes.any fun p => w.isHeld n reads p.streams

/-- Whether all has been written into a pipe that will be. -/
def isOver (w : World) (n : Nat) : Bool := !w.hasEnd n false

def process? (w : World) (number : Nat) : Option Process :=
  w.processes.find? fun p => p.number == number

/-- Changes what is known of a process. -/
def modifyProcess (w : World) (number : Nat) (f : Process → Process) : World :=
  { w with processes := w.processes.map fun p => if p.number = number then f p else p }

/-- How a process has ended, if it has. -/
def ending? (w : World) (number : Nat) : Option Ending :=
  (w.process? number).bind fun p => p.ending.map (·.2)

/-- How those of some processes have ended that have, in the order in which they did. -/
def endingsOf (w : World) (numbers : List Nat) : List Ending :=
  (((w.processes.filter fun p => numbers.contains p.number).filterMap (·.ending)).mergeSort
    fun a b => a.1 ≤ b.1).map (·.2)

/-- Whether a process runs. -/
def isRunning (w : World) (number : Nat) : Bool :=
  (w.process? number).any fun p => p.ending.isNone

/-- Whether a process has ended; one that nothing is known of has. -/
def hasEnded (w : World) (number : Nat) : Bool := !w.isRunning number

/-- Forgets a process that has ended. -/
def forget (w : World) (number : Nat) : World :=
  { w with processes := w.processes.filter fun p => p.number != number }

/-- Ends a process. The one it comes from gets a signal if it takes it. Those that come from it go to
the first process, which asks after nobody for long. -/
def finish (w : World) (number : Nat) (ending : Ending) : World :=
  let parent := (w.process? number).elim 1 (·.parent)
  let isLost := fun p : Process =>
    (p.parent == number && p.ending.isSome) || (p.number == number && p.parent == 1)
  { w with
    endings := w.endings + 1
    signals := (w.signals.filter fun p => p.1 != number) ++
      ((w.processes.filter fun p => p.number == parent && p.caught.contains 17).map fun p =>
        (p.number, 17))
    processes := (w.processes.filter fun p => !isLost p).map fun p =>
      if p.number = number then { p with ending := some (w.endings, ending), streams := [] }
      else if p.parent = number then { p with parent := 1 }
      else p }

end World

end BitcodeReplay.Shell
