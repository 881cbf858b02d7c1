import BitcodeReplay.Shell.Course
import BitcodeReplay.Shell.Permissions

/-!
Opening paths: files of the tree, devices, and channels under their names; and redirections after
their words have been expanded: what a channel is led to.
-/

namespace BitcodeReplay.Shell

namespace Session

/-- A stream that a redirection of some direction makes of a device. -/
def streamOn (device : Device) (direction : Direction) : Stream :=
  match direction with
  | .read => ⟨device, 0, true, false, false⟩
  | .readWrite => ⟨device, 0, true, true, false⟩
  | .append => ⟨device, 0, false, true, true⟩
  | .write | .overwrite | .duplicate => ⟨device, 0, false, true, false⟩

def openDevice (s : Session) (device : Device) (direction : Direction) : Session × Nat :=
  let (w, n) := s.toWorld.openStream (streamOn device direction)
  ({ s with toWorld := w }, n)

/-- A new file without content, with the permissions that the mask leaves. -/
def createAt (s : Session) (loc : Location) : Session :=
  let w := { s.toWorld with tree := s.tree.put loc (.file .empty false) }.stamp loc
  { s with toWorld := if s.umask = 0o022 then w else w.setMode loc (Permissions.without 0o666 s.umask) }

/-- Opens a file that is there. What is only written is emptied first. -/
def openFile (s : Session) (loc : Location) (executable : Bool) (direction : Direction) :
    Session × Nat :=
  let empties := match direction with
    | .write | .overwrite | .duplicate => true
    | _ => false
  let s := if empties then
      s.modifyWorld fun w => (w.putAt loc (.file .empty executable)).stamp loc
    else s
  s.openDevice (.file loc) direction

/-- Opens what a channel leads to once more. -/
def openChannel (s : Session) (number : Nat) (direction : Direction) :
    Except FileError (Session × Nat) :=
  match (s.channels.lookup number).bind fun n => s.streams[n]? with
  | none => .error .notFound
  | some stream =>
    match stream.device with
    | .file loc =>
      match s.tree.get? loc with
      | some (.file _ executable) => .ok (s.openFile loc executable direction)
      | _ => .error .notFound
    | device => .ok (s.openDevice device direction)

/-- The number of the pipe behind a name. -/
def pipeAt (s : Session) (loc : Location) : Session × Nat :=
  match s.pipePlaces.lookup loc with
  | some n => (s, n)
  | none =>
    ({ s with pipePlaces := (loc, s.pipes.size) :: s.pipePlaces, pipes := s.pipes.push Pipe.closed },
      s.pipes.size)

/-- Opens a special entry. -/
def openSpecial (s : Session) (loc : Location) (kind : Special) (direction : Direction) :
    Except FileError (Session × Nat) :=
  match kind with
  | .null => .ok (s.openDevice .null direction)
  | .zero | .random => .ok (s.openDevice .zero direction)
  | .full => .ok (s.openDevice .full direction)
  | .terminal => .error .noDevice
  | .pipe =>
    let (s, n) := s.pipeAt loc
    let reads := direction = .read || direction = .readWrite
    let note := fun p : Pipe =>
      { p with
        readers := if reads then p.readers + 1 else p.readers
        writers := if direction = .read then p.writers else p.writers + 1 }
    .ok ({ s with pipes := s.pipes.modify n note }.openDevice (.pipe n) direction)

/-- The channel that an absolute path names. -/
def channelOf? (path : String) : Option Nat :=
  match Path.names path with
  | ["dev", "stdin"] => some 0
  | ["dev", "stdout"] => some 1
  | ["dev", "stderr"] => some 2
  | ["dev", "fd", number] | ["proc", "self", "fd", number] => number.toNat?
  | _ => none

/-- Opens an entry of the tree. A file that is to be written is made if it is not there. -/
def openEntry (s : Session) (path : String) (direction : Direction) :
    Except FileError (Session × Nat) :=
  let isRead := direction = .read
  match s.tree.resolve true path with
  | .error .notFound =>
    let bare := String.ofList (path.toList.reverse.dropWhile (· == '/')).reverse
    if !isRead && bare.length < path.length then
      match s.tree.resolve true bare with
      | .ok (.free _) => .error .isADirectory
      | _ => .error .notFound
    else .error .notFound
  | .error e => .error e
  | .ok (.found loc .dir) =>
    if isRead then .ok (s.openDevice (.directory loc) .read) else .error .isADirectory
  | .ok (.found loc (.file _ executable)) => .ok (s.openFile loc executable direction)
  | .ok (.found loc (.special kind)) => s.openSpecial loc kind direction
  | .ok (.found _ (.link _)) => .error .notFound
  | .ok (.free loc) =>
    if isRead then .error .notFound else .ok ((s.createAt loc).openDevice (.file loc) direction)

/-- Opens a path, and the number of its stream. -/
def openPath (s : Session) (path : Octets) (direction : Direction) :
    Except FileError (Session × Nat) :=
  if path = [] then .error .notFound
  else
    let full := s.place path
    match channelOf? full with
    | some number => s.openChannel number direction
    | none => s.openEntry full direction

end Session

/-- Waits until somebody has opened the other end of a pipe, if it has a name. -/
def Act.meet (stream : Nat) : Act Unit := do
  let s ← get
  match s.streams[stream]? with
  | some ⟨.pipe n, _, readable, writable, _⟩ =>
    if !(readable && writable) && s.pipePlaces.any (·.2 == n) then
      let others := fun w : World =>
        (w.pipes[n]?).elim 0 fun p => if readable then p.writers else p.readers
      let before := others s.toWorld
      let aside := s.aside
      set { s with aside := stream :: aside }
      await fun w => w.hasEnd n (!readable) || before < others w
      modify fun s => { s with aside := aside }
  | _ => pure ()

/-- Opens a path for as long as the process runs, and the number of its stream. -/
def Act.openPath (path : Octets) (direction : Direction) : Act (Except FileError Nat) := do
  match (← get).openPath path direction with
  | .error e => return .error e
  | .ok (s, n) =>
    set s
    Act.meet n
    if (s.toWorld.pipeOf? n).isSome then modify fun s => { s with aside := n :: s.aside }
    return .ok n

/-- What a channel is led to: a path, a text, or what another channel leads to, if any. -/
inductive Lead where
  | path (channel : Nat) (direction : Direction) (target : Octets)
  | content (channel : Nat) (text : Octets)
  | copy (channel : Nat) (source : Option Nat)
  deriving DecidableEq, Repr

namespace Lead

/-- What a redirection to another channel asks for; nothing if its word is no channel. -/
def ofWord? (channel : Nat) (word : Octets) : Option Lead :=
  match word with
  | ['-'] => some (.copy channel none)
  | [c] => if Text.isDigit c then some (.copy channel (some (c.toNat - '0'.toNat))) else none
  | _ => none

/-- Why a path cannot be opened. -/
def failure (direction : Direction) (target : Octets) (e : FileError) : String :=
  let isAbsent := e = .notFound || e = .notADirectory
  let (action, reason) :=
    if direction = .read then ("open", "No such file") else ("create", "Directory nonexistent")
  "cannot " ++ action ++ " " ++ target.toText ++ ": " ++ if isAbsent then reason else errorText e

/-- Whether a file is there that must not be overwritten. -/
def isGuarded (s : Session) (direction : Direction) (target : Octets) : Bool :=
  direction = .write && s.has 'C' &&
    match s.entryAt true target with
    | some (_, .file _ _) => true
    | _ => false

/-- Leads a channel where it is to lead, or says why it cannot. -/
def apply (s : Session) : Lead → Except String Session
  | .copy channel none => .ok (s.lead channel none)
  | .copy channel (some source) =>
    if channel = source then .ok s
    else
      match s.channels.lookup source with
      | some stream => .ok (s.lead channel (some stream))
      | none => .error (toString source ++ ": Bad file descriptor")
  | .content channel text => .ok (s.feed channel text)
  | .path channel direction target =>
    if isGuarded s direction target then .error (failure direction target .alreadyExists)
    else
      match s.openPath target direction with
      | .ok (s, stream) => .ok (s.lead channel (some stream))
      | .error e => .error (failure direction target e)

end Lead

/-- Leads channels where they are to lead; false after a complaint. -/
def redirect : List Lead → Act Bool
  | [] => return true
  | lead :: rest => do
    let s ← get
    match lead.apply s with
    | .ok after =>
      set after
      match lead with
      | .path channel _ _ => Act.meet ((after.channels.lookup channel).getD after.streams.size)
      | _ => pure ()
      redirect rest
    | .error message =>
      set (s.complain message)
      return false

end BitcodeReplay.Shell
