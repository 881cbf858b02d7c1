import BitcodeReplay.Shell.Format
import BitcodeReplay.Tool.Directory

/-!
The tool that tells what is known of entries.
-/

namespace BitcodeReplay.Tool

open Shell

namespace Row

/-- What a letter of a format stands for. -/
def fact (s : Session) (r : Row) (c : Char) : Octets :=
  let mode := r.thing.mode s
  let time := Moment.ofMillis (r.time s)
  let clock := time.write "%Y-%m-%d %H:%M:%S.%N %z".toList
  let kind := match r.thing with
    | ⟨_, .dir⟩ => 0o040000
    | ⟨_, .link _⟩ => 0o120000
    | ⟨_, .file _ _⟩ => 0o100000
    | ⟨_, .special .pipe⟩ => 0o010000
    | ⟨_, .special _⟩ => 0o020000
  match c with
  | 'n' => r.name
  | 'N' =>
    match r.thing with
    | ⟨_, .link target⟩ =>
      Quote.always r.name ++ text " -> " ++ Quote.always (Octets.ofText target)
    | _ => Quote.always r.name
  | 's' => Octets.ofNat r.size
  | 'a' => Nat.toDigits 8 mode
  | 'A' => r.thing.letter :: modeLetters mode
  | 'f' => Nat.toDigits 16 (kind + mode)
  | 'F' => text r.thing.kind
  | 'h' =>
    match r.thing with
    | ⟨loc, e⟩ => Octets.ofNat (placeCount s loc e)
  | 'i' => Octets.ofNat (r.inode s)
  | 'u' | 'g' => ['0']
  | 'U' | 'G' => text "root"
  | 'b' => Octets.ofNat (r.blocks * 2)
  | 'B' => text "512"
  | 'o' => text "4096"
  | 'd' => text "1"
  | 'D' => text "1"
  | 't' | 'T' => ['0']
  | 'x' | 'y' | 'z' => clock
  | 'X' | 'Y' | 'Z' => time.write "%s".toList
  | 'w' => ['-']
  | 'W' => ['0']
  | 'm' => ['/']
  | 'C' => ['?']
  | _ => ['?']

/-- Facts in a format. The first argument bounds the number of steps. -/
def inFormat (s : Session) (r : Row) (escapes : Bool) : Nat → Octets → Octets
  | 0, _ => []
  | _ + 1, [] => []
  | bound + 1, '%' :: rest =>
    let flags := rest.takeWhile fun c => ['-', '0', ' ', '+', '#', '\''].contains c
    let rest := rest.drop flags.length
    let width := rest.takeWhile Text.isDigit
    match rest.drop width.length with
    | '%' :: rest => '%' :: inFormat s r escapes bound rest
    | c :: rest =>
      let shown := r.fact s c
      let n := Arithmetic.digitsValue 10 width
      let shown :=
        if flags.contains '-' then leftAligned n shown
        else if flags.contains '0' && shown.all Text.isDigit then
          List.replicate (n - shown.length) '0' ++ shown
        else rightAligned n shown
      shown ++ inFormat s r escapes bound rest
    | [] => ['%']
  | bound + 1, '\\' :: rest =>
    if escapes then
      let (shown, rest) := Format.escape .program rest
      shown ++ inFormat s r escapes bound rest
    else '\\' :: inFormat s r escapes bound rest
  | bound + 1, c :: rest => c :: inFormat s r escapes bound rest

end Row

/-- What is told of an entry when nothing else is asked for. -/
def fullStatus : Octets :=
  text "  File: %N\n  Size: %-10s\tBlocks: %-10b IO Block: %-6o %F\n" ++
    text "Device: 0,1\tInode: %-11i Links: %h\n" ++
    text "Access: (%a/%A)  Uid: (    0/    root)   Gid: (    0/    root)\n" ++
    text "Access: %x\nModify: %y\nChange: %z\n Birth: %w\n"

def stat (words : List Octets) : Act Unit :=
  let table := OptionTable.of "c:fLt"
    [("dereference", "L", .nothing), ("file-system", "f", .nothing), ("format", "c", .required),
      ("printf", "printf", .required), ("terse", "t", .nothing), ("cached", "cached", .required)]
  withOptions table words fun given operands => do
    if operands = [] then missingOperand
    for path in operands do
      let s ← get
      match lookAt s (given.has "L") path with
      | .error e =>
        if given.has "f" then failFor "cannot read file system information for " path e
        else failFor "cannot statx " path e
      | .ok thing =>
        let r : Row := ⟨path, path, thing⟩
        match given.lastOf? ["c", "printf"] with
        | some key =>
          let format := (given.last? key).getD []
          let shown := r.inFormat s (key == "printf") (format.length + 1) format
          Act.put (if key = "c" then shown ++ ['\n'] else shown)
        | none => Act.put (r.inFormat s false (fullStatus.length + 1) fullStatus)

end BitcodeReplay.Tool
