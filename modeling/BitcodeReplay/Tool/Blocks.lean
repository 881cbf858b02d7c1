import BitcodeReplay.Tool.Making

/-!
The tool that copies in blocks, from a place of one file to a place of another.
-/

namespace BitcodeReplay.Tool

open Shell

namespace Blocks

/-- A number of blocks, or of bytes. -/
structure Amount where
  count : Nat
  inBytes : Bool
  deriving DecidableEq, Repr

def Amount.bytes (a : Amount) (block : Nat) : Nat := if a.inBytes then a.count else a.count * block

/-- What is to be copied, and how. With no output blocks of their own, what is read in one go is
written in one go. -/
structure Order where
  source : Option Octets
  target : Option Octets
  inBlock : Nat
  outBlock : Nat
  both : Option Nat
  record : Nat
  skip : Amount
  seek : Amount
  count : Option Amount
  conversions : List String
  inFlags : List String
  outFlags : List String
  status : String
  deriving DecidableEq, Repr

def Order.start : Order :=
  ⟨none, none, 512, 512, none, 0, ⟨0, false⟩, ⟨0, false⟩, none, [], [], [], ""⟩

/-- A factor of a number: digits with a unit. -/
def factor? (word : Octets) : Option Nat :=
  let digits := word.takeWhile Text.isDigit
  match word.drop digits.length with
  | ['w'] => (decimal? digits).map (2 * ·)
  | ['B'] => decimal? digits
  | _ => count? word

/-- A number, which may be a product. -/
def number? (word : Octets) : Option Nat :=
  (word.splitOn 'x').foldl (fun n part => do return (← n) * (← factor? part)) (some 1)

/-- Why words are not understood, and whether help is offered. -/
abbrev Complaint := Octets × Bool

def conversionNames : List String :=
  ["ascii", "ebcdic", "ibm", "block", "unblock", "lcase", "ucase", "sparse", "swab", "noerror",
    "nocreat", "excl", "notrunc", "sync", "fdatasync", "fsync"]

def flagNames : List String :=
  ["append", "binary", "cio", "direct", "directory", "dsync", "noatime", "nocache", "noctty",
    "nofollow", "nolinks", "nonblock", "sync", "text", "fullblock", "count_bytes", "skip_bytes",
    "seek_bytes"]

/-- The names in a list with commas. -/
def listed (what : String) (known : List String) (word : Octets) : Except Complaint (List String) :=
  (word.splitOn ',').mapM fun name =>
    if known.contains name.toText then .ok name.toText
    else .error (text what ++ Quote.always name, true)

/-- An order with what one word adds to it. -/
def Order.read (o : Order) (word : Octets) : Except Complaint Order :=
  let name := Octets.toText (word.takeWhile (· != '='))
  let value : Octets := word.drop (name.length + 1)
  let number := fun least : Nat =>
    match (number? value).filter (least ≤ ·) with
    | some n => Except.ok n
    | none => Except.error ((text "invalid number: " ++ Quote.always value, false) : Complaint)
  let amount := (number 0).map fun n => (⟨n, value.contains 'B'⟩ : Amount)
  if !word.contains '=' then .error (text "unrecognized operand " ++ Quote.always word, true)
  else
    match name with
    | "if" => .ok { o with source := some value }
    | "of" => .ok { o with target := some value }
    | "ibs" => (number 1).map fun n => { o with inBlock := n }
    | "obs" => (number 1).map fun n => { o with outBlock := n }
    | "bs" => (number 1).map fun n => { o with both := some n }
    | "cbs" => (number 1).map fun n => { o with record := n }
    | "skip" | "iseek" => amount.map fun a => { o with skip := a }
    | "seek" | "oseek" => amount.map fun a => { o with seek := a }
    | "count" => amount.map fun a => { o with count := some a }
    | "conv" => (listed "invalid conversion: " conversionNames value).map fun l =>
      { o with conversions := o.conversions ++ l }
    | "iflag" => (listed "invalid input flag: " flagNames value).map fun l =>
      { o with inFlags := o.inFlags ++ l }
    | "oflag" => (listed "invalid output flag: " flagNames value).map fun l =>
      { o with outFlags := o.outFlags ++ l }
    | "status" =>
      if ["none", "noxfer", "progress"].contains value.toText then
        .ok { o with status := value.toText }
      else .error (text "invalid status level: " ++ Quote.always value, true)
    | _ => .error (text "unrecognized operand " ++ Quote.always word, true)

/-- Conversions of which only one may be asked for. -/
def exclusive : List (List String × String) :=
  [(["ascii", "ebcdic", "ibm"], "any two of \x7bascii,ebcdic,ibm\x7d"),
    (["block", "unblock"], "block and unblock"), (["lcase", "ucase"], "lcase and ucase"),
    (["excl", "nocreat"], "excl and nocreat")]

/-- The order with what follows from its parts. -/
def Order.settled (o : Order) : Except Complaint Order :=
  match exclusive.find? fun p => 1 < (p.1.filter o.conversions.contains).length with
  | some p => .error (text ("cannot combine " ++ p.2), false)
  | none =>
    let size := fun own : Nat => o.both.getD own
    let counts := fun (flags : List String) (name : String) (a : Amount) =>
      { a with inBytes := a.inBytes || flags.contains name }
    .ok { o with
      inBlock := size o.inBlock
      outBlock := size o.outBlock
      skip := counts o.inFlags "skip_bytes" o.skip
      seek := counts o.outFlags "seek_bytes" o.seek
      count := o.count.map (counts o.inFlags "count_bytes") }

/-- Whether what is written is put together in blocks of its own. -/
def Order.gathers (o : Order) : Bool :=
  o.both.isNone ||
    ["ascii", "ebcdic", "ibm", "block", "unblock", "lcase", "ucase", "swab"].any o.conversions.contains

/-- What has been copied so far: blocks that were full and blocks that were not, on both sides. A byte
may wait for the one to change places with; `column` is the place in a record and `spaces` those that
may belong to its end. -/
structure Progress where
  taken : Nat
  inFull : Nat
  inPart : Nat
  outFull : Nat
  outPart : Nat
  written : Nat
  cut : Nat
  waiting : Option Char
  column : Nat
  spaces : Nat
  deriving DecidableEq, Repr

def Progress.start : Progress := ⟨0, 0, 0, 0, 0, 0, 0, none, 0, 0⟩

/-- Bytes in pairs that have changed places. -/
def swapped : Option Char → Octets → Octets × Option Char
  | waiting, [] => ([], waiting)
  | none, c :: rest => swapped (some c) rest
  | some b, c :: rest =>
    let (more, waiting) := swapped none rest
    (c :: b :: more, waiting)

/-- Lines as records of one length, which are filled up or cut off. -/
def toRecords (size : Nat) (t : Octets) (p : Progress) : Octets × Progress :=
  let (found, p) := t.foldl
    (fun (found, p) c =>
      if c = '\n' then
        (List.replicate (size - p.column) ' ' ++ found, { p with column := 0 })
      else
        (if p.column < size then c :: found else found,
          { p with column := p.column + 1, cut := if p.column = size then p.cut + 1 else p.cut }))
    (([] : Octets), p)
  (found.reverse, p)

/-- Records of one length as lines without the spaces at their ends. -/
def toLines (size : Nat) (t : Octets) (p : Progress) : Octets × Progress :=
  let (found, p) := t.foldl
    (fun (found, p) c =>
      let (found, p) : Octets × Progress :=
        if size ≤ p.column then ('\n' :: found, { p with column := 0, spaces := 0 }) else (found, p)
      let p := { p with column := p.column + 1 }
      if c = ' ' then (found, { p with spaces := p.spaces + 1 })
      else (c :: List.replicate p.spaces ' ' ++ found, { p with spaces := 0 }))
    (([] : Octets), p)
  (found.reverse, p)

/-- What becomes of bytes on their way. -/
def Order.convert (o : Order) (t : Octets) (p : Progress) : Octets × Progress :=
  let has := o.conversions.contains
  let (t, p) : Octets × Progress :=
    if has "swab" then
      let (t, waiting) := swapped p.waiting t
      (t, { p with waiting := waiting })
    else (t, p)
  let t := if has "ucase" then t.map Char.toUpper else if has "lcase" then t.map Char.toLower else t
  if o.record = 0 then (t, p)
  else if has "block" then toRecords o.record t p
  else if has "unblock" then toLines o.record t p
  else (t, p)

/-- What is still to be written when nothing more is read. -/
def Order.rest (o : Order) (p : Progress) : Octets :=
  p.waiting.toList ++
    (if o.record = 0 || p.column = 0 then []
    else if o.conversions.contains "block" then List.replicate (o.record - p.column) ' '
    else if o.conversions.contains "unblock" then ['\n']
    else [])

/-- How much is read in one go, if so many bytes may still be read; from a pipe it is one block. -/
def Order.portion (o : Order) (isPipe : Bool) (left : Option Nat) : Nat :=
  let size := if isPipe then o.inBlock else max 1 (32768 / o.inBlock) * o.inBlock
  left.elim size (min size)

/-- Takes bytes of a stream, at most so many. -/
def take (stream size : Nat) (whole : Bool) : Act Octets := do
  if size = 0 then return []
  Act.awaitInput stream fun p => (if whole then size else 1) ≤ p.size
  let found := (← get).toWorld.peek stream size
  modify fun s => s.modifyWorld fun w => w.skip stream found.length
  return found

/-- What is left of an amount that may still be read, in bytes. -/
def Order.left (o : Order) (p : Progress) : Option Nat :=
  o.count.map fun a =>
    if a.inBytes then a.count - p.taken
    else (a.count - (p.inFull + p.inPart)) * o.inBlock

/-- Bytes of a block that is not full are followed by others if blocks are to be full. -/
def Order.filled (o : Order) (t : Octets) : Octets :=
  let used := t.length % o.inBlock
  if o.conversions.contains "sync" && used != 0 then
    let has := o.conversions.contains
    t ++ List.replicate (o.inBlock - used) (if has "block" || has "unblock" then ' ' else '\x00')
  else t

/-- Notes that bytes are written. -/
def Order.counted (o : Order) (t : Octets) (p : Progress) : Progress :=
  let p := { p with written := p.written + t.length }
  if o.gathers then
    { p with outFull := p.written / o.outBlock, outPart := if p.written % o.outBlock = 0 then 0 else 1 }
  else
    { p with
      outFull := p.outFull + t.length / o.outBlock
      outPart := p.outPart + if t.length % o.outBlock = 0 then 0 else 1 }

/-- Copies block by block. The first argument bounds the portions. -/
def copy (o : Order) (source target : Nat) : Nat → Progress → Act Progress
  | 0, p => return p
  | bound + 1, p => do
    let isPipe := ((← get).toWorld.pipeOf? source).isSome
    let found ← take source (o.portion isPipe (o.left p)) (o.inFlags.contains "fullblock")
    let converted := o.convert (o.filled found) p
    let t := if found = [] then o.rest p else converted.1
    Act.writeTo target t
    let s ← get
    let p := if found = [] then p else
      { converted.2 with
        taken := p.taken + found.length
        inFull := p.inFull + found.length / o.inBlock
        inPart := p.inPart + if found.length % o.inBlock = 0 then 0 else 1 }
    if s.failed.isSome || s.flow != .running then return p
    let p := o.counted t p
    if found = [] || o.left p = some 0 && o.rest p = [] then return p
    if !isPipe && 32768 ≤ p.written then Act.pass
    copy o source target bound p

/-- A size in the first of some units that leaves a small number; each unit is `base` times the one
before, and `scale` is the first. A number below `exact` is shown in tenths, of which it counts. -/
def sized (base exact n : Nat) : Nat → List String → String
  | _, [] => toString n
  | scale, unit :: rest =>
    let tenths := (10 * n + scale / 2) / scale
    let whole := (n + scale / 2) / scale
    if base ≤ whole && rest ≠ [] then sized base exact n (scale * base) rest
    else if tenths < exact then toString (tenths / 10) ++ "." ++ toString (tenths % 10) ++ unit
    else toString whole ++ unit

def decimalUnits : List String := [" kB", " MB", " GB", " TB"]

def binaryUnits : List String := [" KiB", " MiB", " GiB", " TiB"]

/-- A number of seconds, given in microseconds. -/
def seconds (n : Nat) : String :=
  let digits := Octets.ofNat (n % 1000000)
  let shown := (List.replicate (6 - digits.length) '0' ++ digits).reverse.dropWhile (· == '0')
  toString (n / 1000000) ++ (if shown = [] then "" else "." ++ String.ofList shown.reverse)

/-- What is said in the end. -/
def report (o : Order) (p : Progress) (time : Nat) : String :=
  let records :=
    toString p.inFull ++ "+" ++ toString p.inPart ++ " records in\n" ++
      toString p.outFull ++ "+" ++ toString p.outPart ++ " records out\n" ++
      (if p.cut = 0 then ""
      else toString p.cut ++ (if p.cut = 1 then " truncated record\n" else " truncated records\n"))
  if o.status = "noxfer" then records
  else
    let bytes := toString p.written ++ if p.written = 1 then " byte" else " bytes"
    let sizes :=
      if p.written < 1000 then ""
      else if p.written < 1024 then " (" ++ sized 1000 100 p.written 1000 decimalUnits ++ ")"
      else " (" ++ sized 1000 100 p.written 1000 decimalUnits ++ ", " ++
        sized 1024 100 p.written 1024 binaryUnits ++ ")"
    records ++ bytes ++ sizes ++ " copied, " ++ seconds time ++ " s, " ++
      sized 1000 1000 (p.written * 1000000 / time) 1000 decimalUnits ++ "/s\n"

/-- Opens what is copied from. -/
def Order.openSource (o : Order) : Act (Option Nat) := do
  let s ← get
  match o.source with
  | none => return s.channels.lookup 0
  | some path =>
    match ← Act.openPath path .read with
    | .ok n => return some n
    | .error e =>
      failFor "failed to open " path e
      return none

/-- Opens what is copied to, at its place. -/
def Order.openTarget (o : Order) : Act (Option Nat) := do
  let has := o.conversions.contains
  let offset := o.seek.bytes o.outBlock
  match o.target with
  | none =>
    match (← get).channels.lookup 1 with
    | none => return none
    | some n =>
      if offset != 0 then
        if (← get).toWorld.canRewind n then
          modify fun s => { s with
            streams := s.streams.modify n fun t => { t with offset := t.offset + offset } }
        else
          fail (text "'standard output': cannot seek: Illegal seek")
          return none
      return some n
  | some path =>
    let found := lookAt (← get) true path
    if has "excl" && found.isOk then
      failOn "failed to open " path ": File exists"
      return none
    if has "nocreat" && !found.isOk then
      failFor "failed to open " path .notFound
      return none
    let keeps := has "notrunc" || offset != 0
    let isFile := match found with
      | .ok ⟨_, .file ..⟩ => true
      | _ => false
    match ← Act.openPath path (if keeps && isFile then .readWrite else .write) with
    | .error e =>
      failFor "failed to open " path e
      return none
    | .ok n =>
      if let some ⟨.file loc, _, _, _, _⟩ := (← get).streams[n]? then
        if offset != 0 && !has "notrunc" then setSize loc offset
      let appends := o.outFlags.contains "append"
      modify fun s => { s with
        streams := s.streams.modify n fun t => { t with offset := offset, appends := appends } }
      return some n

/-- Reads over blocks of a pipe, and how many there were. The second argument bounds them. -/
def passOver (stream size : Nat) : Nat → Nat → Act Nat
  | 0, n => return n
  | bound + 1, n => do
    let found ← take stream size false
    if found = [] then return n else passOver stream size bound (n + 1)

/-- Goes on behind what is not to be copied; whether there is that much. -/
def Order.passSource (o : Order) (source : Nat) : Act Bool := do
  let s ← get
  let count := o.skip.bytes o.inBlock
  match (s.streams[source]?).map fun (t : Stream) => (t.device, t.offset) with
  | some (.file loc, offset) =>
    let size := match s.tree.get? loc with
      | some (.file bytes _) => bytes.size
      | _ => 0
    set (s.modifyWorld fun w => w.skip source count)
    return offset + count ≤ size
  | some (.pipe _, _) =>
    if o.skip.inBytes then
      let found ← take source count true
      return found.length = count
    else return (← passOver source o.inBlock o.skip.count 0) = o.skip.count
  | _ => return true

def Order.run (o : Order) : Act Unit := do
  match ← o.openSource with
  | none => pure ()
  | some source =>
    match ← o.openTarget with
    | none => pure ()
    | some target =>
      let s ← get
      let start := s.clock
      let sourceName := o.source.getD (text "standard input")
      if o.skip.count != 0 then
        if !(← o.passSource source) then
          say (Quote.ifNeeded sourceName ++ text ": cannot skip to specified offset")
      let p ←
        match (← get).toWorld.pending source with
        | .error e => do
          failOn "error reading " sourceName (": " ++ e.message)
          pure Progress.start
        | .ok _ => copy o source target Act.endless .start
      let s ← get
      if s.flow = .running then
        match s.failed with
        | some e =>
          failOn "error writing " (o.target.getD (text "standard output")) (": " ++ e.message)
          modify fun s => { s with failed := none }
        | none => pure ()
        if o.status != "none" then
          modify fun s => s.report (text (report o p (max 20 (s.clock - start).toNat)))

end Blocks

def dd (words : List Octets) : Act Unit :=
  withOptions (.of "" []) words fun _ operands => do
    match (operands.foldlM (fun o word => Blocks.Order.read o word) Blocks.Order.start).bind
        Blocks.Order.settled with
    | .error (message, true) => misused 1 message
    | .error (message, false) => fail message
    | .ok o => o.run

end BitcodeReplay.Tool
