import BitcodeReplay.Shell.Pattern
import BitcodeReplay.Tool.Entry
import BitcodeReplay.Tool.Moment
import BitcodeReplay.Tool.Version

/-!
The tool that lists directories.
-/

namespace BitcodeReplay.Tool

open Shell

/-- The orders in which entries are listed. -/
inductive ListingOrder where
  | name
  | time
  | size
  | ending
  | version
  | none
  deriving DecidableEq, Repr

/-- How entries are laid out. -/
inductive Layout where
  | single
  | long
  | columns
  | rows
  | commas
  deriving DecidableEq, Repr

/-- How names are written. -/
inductive NameStyle where
  | plain
  | escaped
  | quoted
  | shell
  deriving DecidableEq, Repr

/-- Which marks follow names. -/
inductive Marks where
  | none
  | slashes
  | types
  | all
  deriving DecidableEq, Repr

/-- How a directory is listed. -/
structure ListingStyle where
  layout : Layout
  order : ListingOrder
  reversed : Bool
  hidden : Bool
  selves : Bool
  themselves : Bool
  recursive : Bool
  follows : Bool
  marks : Marks
  names : NameStyle
  blocks : Bool
  inodes : Bool
  human : Bool
  numeric : Bool
  owner : Bool
  group : Bool
  width : Nat
  ignored : List Octets
  timeFormat : Option Octets

/-- An entry to be listed: its name, its path, and what stands there. -/
structure Row where
  name : Octets
  path : Octets
  thing : Thing

namespace Row

/-- The size of an entry in bytes. -/
def size (r : Row) : Nat :=
  match r.thing with
  | ⟨_, .file bytes _⟩ => bytes.size
  | ⟨_, .link target⟩ => (Octets.ofText target).length
  | ⟨_, .dir⟩ => 4096
  | ⟨_, .special _⟩ => 0

/-- How much room an entry takes, in blocks. -/
def blocks (r : Row) : Nat :=
  match r.thing with
  | ⟨_, .file bytes _⟩ => (bytes.size + 4095) / 4096 * 4
  | ⟨_, .dir⟩ => 4
  | _ => 0

def time (s : Session) (r : Row) : Int :=
  match r.thing with
  | ⟨loc, _⟩ => s.toWorld.timeOf loc

/-- A number for an entry that its other places share. -/
def inode (s : Session) (r : Row) : Nat :=
  match r.thing with
  | ⟨loc, _⟩ =>
    let places := s.toWorld.placesOf loc
    ((s.tree.entries.findIdx? fun p => places.contains p.1).getD 0) + 1000

end Row

/-- What follows the last dot of a name, with the dot. -/
def endingOf (name : Octets) : Octets :=
  if name.contains '.' then '.' :: (name.reverse.takeWhile (· != '.')).reverse else []

namespace ListingStyle

/-- Rows in the order of a style. -/
def sort (l : ListingStyle) (s : Session) (rows : List Row) : List Row :=
  let byName := fun a b : Row => Octets.isLe a.name b.name
  let sorted :=
    match l.order with
    | .none => rows
    | .name => rows.mergeSort byName
    | .time => (rows.mergeSort byName).mergeSort fun a b => b.time s ≤ a.time s
    | .size => (rows.mergeSort byName).mergeSort fun a b => b.size ≤ a.size
    | .ending => (rows.mergeSort byName).mergeSort fun a b =>
        Octets.isLe (endingOf a.name) (endingOf b.name)
    | .version => (rows.mergeSort byName).mergeSort fun a b =>
        compareVersions (a.name.length + b.name.length + 1) a.name b.name != .gt
  if l.reversed then sorted.reverse else sorted

/-- The mark behind a name. -/
def mark (l : ListingStyle) (s : Session) (thing : Thing) : Octets :=
  match l.marks, thing with
  | .none, _ => []
  | .slashes, t => if t.isDirectory then ['/'] else []
  | _, ⟨_, .dir⟩ => ['/']
  | _, ⟨_, .link _⟩ => ['@']
  | _, ⟨_, .special .pipe⟩ => ['|']
  | .all, t => if t.letter = '-' && t.mode s &&& 0o111 != 0 then ['*'] else []
  | .types, _ => []

def name (l : ListingStyle) (name : Octets) : Octets :=
  let escaped := fun special : Char => name.flatMap fun c =>
    if c = '\\' then ['\\', '\\'] else if c = special then ['\\', c] else (Quote.escape? c).getD [c]
  match l.names with
  | .plain => name
  | .escaped => escaped ' '
  | .quoted => '"' :: escaped '"' ++ ['"']
  | .shell => Quote.ifNeeded name

/-- A size with a letter for its unit, rounded up. -/
def humanSize (n : Nat) : Octets :=
  let rec scale : List Char → Nat → Nat → Octets
    | [], n, _ => Octets.ofNat n
    | unit :: rest, n, power =>
      let step := power * 1024
      if n < step * 1024 || rest = [] then
        let tenths := (n * 10 + step - 1) / step
        if tenths < 100 then
          Octets.ofNat (tenths / 10) ++ '.' :: Octets.ofNat (tenths % 10) ++ [unit]
        else
          let whole := (n + step - 1) / step
          if whole < 1024 || rest = [] then Octets.ofNat whole ++ [unit] else scale rest n step
      else scale rest n step
  if n < 1024 then Octets.ofNat n else scale ['K', 'M', 'G', 'T'] n 1

def sizeText (l : ListingStyle) (n : Nat) : Octets := if l.human then humanSize n else Octets.ofNat n

def blockText (l : ListingStyle) (n : Nat) : Octets :=
  if l.human then humanSize (n * 1024) else Octets.ofNat n

/-- The time of an entry: with the year if it is not recent. -/
def timeText (l : ListingStyle) (s : Session) (r : Row) : Octets :=
  let t := r.time s
  let m := Moment.ofMillis t
  match l.timeFormat with
  | some format => m.write format
  | none =>
    let isRecent := t ≤ s.toWorld.now && s.toWorld.now - t < 15778476000
    m.write (if isRecent then "%b %e %H:%M".toList else "%b %e  %Y".toList)

/-- What a row shows behind all else: the name with its mark, and where a link leads. -/
def shown (l : ListingStyle) (s : Session) (r : Row) : Octets :=
  match l.layout, r.thing with
  | .long, ⟨_, .link target⟩ =>
    let final := (lookAt s true r.path).toOption
    l.name r.name ++ text " -> " ++ l.name (Octets.ofText target) ++
      (final.elim [] fun f => if l.marks = .slashes then [] else l.mark s f)
  | _, _ => l.name r.name ++ l.mark s r.thing

/-- The columns of a row that stand before its name, each with whether it is aligned at its end. -/
def columns (l : ListingStyle) (s : Session) (r : Row) : List (Octets × Bool) :=
  let inode := if l.inodes then [(Octets.ofNat (r.inode s), true)] else []
  let blocks := if l.blocks then [(l.blockText r.blocks, true)] else []
  let user := if l.numeric then ['0'] else "root".toList
  let places := match r.thing with
    | ⟨loc, e⟩ => placeCount s loc e
  let size := match r.thing with
    | ⟨_, .special .null⟩ => text "1, 3"
    | ⟨_, .special .zero⟩ => text "1, 5"
    | ⟨_, .special .full⟩ => text "1, 7"
    | ⟨_, .special .random⟩ => text "1, 9"
    | ⟨_, .special .terminal⟩ => text "5, 0"
    | _ => l.sizeText r.size
  if l.layout != .long then inode ++ blocks
  else
    inode ++ blocks ++ [(r.thing.letter :: modeLetters (r.thing.mode s), false),
      (Octets.ofNat places, true)] ++ (if l.owner then [(user, l.numeric)] else []) ++
      (if l.group then [(user, l.numeric)] else []) ++ [(size, true), (l.timeText s r, false)]

/-- Rows with their columns as wide as the widest of each. -/
def aligned (rows : List (List (Octets × Bool))) : List Octets :=
  let widths := rows.foldl (fun widths row =>
    row.zipIdx.map fun (cell, i) => max cell.1.length ((widths[i]?).getD 0)) ([] : List Nat)
  rows.map fun row =>
    (row.zip widths).flatMap fun ((cell, atEnd), width) =>
      (if atEnd then rightAligned width cell else leftAligned width cell) ++ [' ']

/-- The widths of some columns when cells are laid out in them, each with a gap behind it but the
last. -/
def columnWidths (byColumns : Bool) (lengths : List Nat) (count : Nat) : List Nat :=
  let high := (lengths.length + count - 1) / count
  (List.range count).map fun i =>
    lengths.zipIdx.foldl (fun width (n, k) =>
      let column := if byColumns then k / high else k % count
      if column = i then max width (n + if i + 1 = count then 0 else 2) else width) 0

/-- The blanks between two places on a line, with tabs where they reach. The first argument bounds
their number. -/
def indent : Nat → Nat → Nat → Octets
  | 0, _, _ => []
  | bound + 1, start, stop =>
    if stop ≤ start then []
    else if (start + 1) / 8 < stop / 8 then '\t' :: indent bound (start + 8 - start % 8) stop
    else ' ' :: indent bound (start + 1) stop

/-- Cells in as many columns as a line holds. -/
def layOut (byColumns : Bool) (width : Nat) (cells : List Octets) : List Octets :=
  let lengths := cells.map List.length
  let fits := fun count => (columnWidths byColumns lengths count).foldl (· + ·) 0 < width
  let most := max 1 (min cells.length (width / 3))
  let count := (((List.range most).map (most - ·)).find? fits).getD 1
  let widths := columnWidths byColumns lengths count
  let high := (cells.length + count - 1) / count
  (List.range high).map fun row =>
    let places := (List.range count).filterMap fun column =>
      let k := if byColumns then column * high + row else row * count + column
      (cells[k]?).map fun cell => (cell, (widths[column]?).getD 0)
    (places.foldl (fun (line, start, gap) (cell, width) =>
      (line ++ gap ++ cell, start + width, indent width (start + cell.length) (start + width)))
      (([], 0, []) : Octets × Nat × Octets)).1

/-- Cells with commas between them, on lines that are not too long. -/
def commaLines (width : Nat) (cells : List Octets) : List Octets :=
  let step := fun (lines : List Octets) (cell : Octets) =>
    match lines with
    | line :: above =>
      if line.length + 2 + cell.length < width then (line ++ ',' :: ' ' :: cell) :: above
      else cell :: (line ++ [',']) :: above
    | [] => [cell]
  (cells.foldl step []).reverse

/-- The lines for some rows. -/
def lines (l : ListingStyle) (s : Session) (rows : List Row) : List Octets :=
  let before := aligned (rows.map (l.columns s))
  let cells := (before.zip rows).map fun (start, r) => start ++ l.shown s r
  match l.layout with
  | .single | .long => cells
  | .columns => if rows = [] then [] else layOut true l.width cells
  | .rows => if rows = [] then [] else layOut false l.width cells
  | .commas => commaLines l.width cells

/-- Whether a name in a directory is listed. -/
def shows (l : ListingStyle) (name : Octets) : Bool :=
  (l.hidden || name.head? != some '.') &&
    !l.ignored.any fun pattern => (Pattern.ofText pattern).accepts name

/-- The rows of a directory. -/
def rowsIn (l : ListingStyle) (s : Session) (path : Octets) (loc : Location) : List Row :=
  let row := fun (name : Octets) (loc : Location) =>
    let here := below path name
    let seen : Option Row := (s.tree.get? loc).map fun e =>
      let thing := Thing.mk loc e
      ⟨name, here, if l.follows then (lookAt s true here).toOption.getD thing else thing⟩
    seen.toList
  let own := if l.selves then row ['.'] loc ++ row ['.', '.'] loc.dropLast else []
  let names := (s.tree.namesIn loc).filter fun name => l.shows (Octets.ofText name)
  l.sort s (own ++ names.flatMap fun name => row (Octets.ofText name) (loc ++ [name]))

/-- Lists a directory, and with `recursive` those below it. The flag says that a blank line comes
first. The first argument bounds how many there are. -/
def directory (l : ListingStyle) (headed : Bool) : Nat → Bool → Octets → Location → Act Unit
  | 0, _, _, _ => pure ()
  | bound + 1, blank, path, loc => do
    let s ← get
    let rows := l.rowsIn s path loc
    for r in rows do
      if l.follows && r.thing.isLink then
        if let .error e := lookAt s true r.path then
          failFor "cannot access " (if path = ['.'] then r.name else r.path) e
    if blank then Act.put ['\n']
    if headed then Act.putLine (path ++ [':'])
    if l.layout = .long || l.blocks then
      Act.putLine (text "total " ++ l.blockText ((rows.map Row.blocks).foldl (· + ·) 0))
    putLines (l.lines s rows)
    if l.recursive then
      for r in rows do
        match r.thing with
        | ⟨below, .dir⟩ =>
          if r.name ≠ ['.'] && r.name ≠ ['.', '.'] then
            directory l headed bound true r.path below
        | _ => pure ()

end ListingStyle

def lsTable : OptionTable :=
  .of "aAbBcCdfFgGhHiI:klLmnNopqQrRsStT:uUvw:xXZ1"
    [("all", "a", .nothing), ("almost-all", "A", .nothing), ("escape", "b", .nothing),
      ("ignore-backups", "B", .nothing), ("directory", "d", .nothing), ("classify", "F", .optional),
      ("no-group", "G", .nothing), ("human-readable", "h", .nothing), ("inode", "i", .nothing),
      ("ignore", "I", .required), ("hide", "I", .required), ("kibibytes", "k", .nothing),
      ("dereference", "L", .nothing), ("numeric-uid-gid", "n", .nothing), ("literal", "N", .nothing),
      ("hide-control-chars", "q", .nothing), ("quote-name", "Q", .nothing),
      ("quoting-style", "style", .required), ("reverse", "r", .nothing), ("recursive", "R", .nothing),
      ("size", "s", .nothing), ("sort", "sort", .required), ("time", "time", .required),
      ("time-style", "time-style", .required), ("full-time", "full-time", .nothing),
      ("width", "w", .required), ("format", "format", .required), ("color", "color", .optional),
      ("file-type", "file-type", .nothing), ("indicator-style", "indicator", .required),
      ("group-directories-first", "gdf", .nothing), ("dereference-command-line", "H", .nothing),
      ("show-control-chars", "N", .nothing), ("author", "author", .nothing), ("si", "h", .nothing)]

/-- The style that some options ask for. -/
def ListingStyle.ofOptions (given : Given) : ListingStyle :=
  let has := given.has
  let word := fun key => ((given.last? key).getD []).toText
  let order := match given.lastOf? ["t", "S", "X", "U", "f", "v", "sort"] with
    | some "t" => ListingOrder.time
    | some "S" => .size
    | some "X" => .ending
    | some "v" => .version
    | some "sort" =>
      match word "sort" with
      | "time" => .time
      | "size" => .size
      | "extension" => .ending
      | "version" => .version
      | "none" => .none
      | _ => .name
    | some _ => .none
    | none => .name
  let long := has "l" || has "g" || has "o" || has "n" || has "full-time"
  let layout := match given.lastOf? ["l", "g", "o", "n", "full-time", "C", "x", "m", "1", "format"] with
    | some "C" => Layout.columns
    | some "x" => .rows
    | some "m" => .commas
    | some "1" => if long then .long else .single
    | some "format" =>
      match word "format" with
      | "long" | "verbose" => .long
      | "commas" => .commas
      | "horizontal" | "across" => .rows
      | "vertical" => .columns
      | _ => .single
    | some _ => .long
    | none => .single
  let marks := match given.lastOf? ["F", "p", "file-type", "indicator"] with
    | some "F" => if word "F" = "never" || word "F" = "auto" then Marks.none else .all
    | some "p" => .slashes
    | some "file-type" => .types
    | some _ =>
      match word "indicator" with
      | "slash" => .slashes
      | "file-type" => .types
      | "classify" => .all
      | _ => .none
    | none => .none
  let names := match given.lastOf? ["b", "Q", "N", "style"] with
    | some "b" => NameStyle.escaped
    | some "Q" => .quoted
    | some "style" =>
      match word "style" with
      | "escape" => .escaped
      | "c" => .quoted
      | "shell" | "shell-escape" => .shell
      | _ => .plain
    | _ => .plain
  let timeFormat := match given.lastOf? ["full-time", "time-style"], given.last? "time-style" with
    | some "time-style", some ('+' :: format) => some format
    | some "time-style", some w =>
      match w.toText with
      | "full-iso" => some "%Y-%m-%d %H:%M:%S.%N %z".toList
      | "long-iso" => some "%Y-%m-%d %H:%M".toList
      | "iso" => some "%Y-%m-%d ".toList
      | _ => none
    | some _, _ => some "%Y-%m-%d %H:%M:%S.%N %z".toList
    | none, _ => none
  let hides := given.lastOf? ["a", "A", "f"]
  ⟨layout, order, has "r", hides.isSome, hides == some "a" || hides == some "f", has "d",
    has "R" && !has "d", has "L", marks, names, has "s", has "i", has "h", has "n", !has "g",
    !(has "o" || has "G"), ((given.last? "w").bind decimal?).getD 80,
    given.all "I" ++ (if has "B" then [text "*~"] else []), timeFormat⟩

def ls (words : List Octets) : Act Unit :=
  withOptionsOr 2 lsTable words fun given operands => do
    let l := ListingStyle.ofOptions given
    let paths := if operands = [] then [['.']] else operands
    let mut rows := #[]
    for path in paths do
      let s ← get
      let direct := lookAt s false path
      let leads := l.follows || given.has "H" ||
        !(l.layout = .long || l.marks = .all || l.themselves)
      let whole := lookAt s true path
      let found := if l.follows then whole
        else if leads && whole.toOption.any Thing.isDirectory then whole
        else direct
      match found with
      | .ok thing => rows := rows.push ⟨path, path, thing⟩
      | .error e =>
        say (text "cannot access " ++ Quote.always path ++ text (": " ++ errorText e))
        Act.setStatus 2
    let s ← get
    let isDir := fun r : Row => r.thing.isDirectory && !l.themselves
    let files := l.sort s (rows.toList.filter fun r => !isDir r)
    let directories := l.sort s (rows.toList.filter isDir)
    putLines (l.lines s files)
    let headed := l.recursive || !(files.length = 0 && paths.length ≤ 1)
    let mut blank := files.length != 0
    for r in directories do
      match r.thing with
      | ⟨loc, _⟩ =>
        l.directory headed (s.tree.entries.length + 2) blank r.path loc
        blank := true

end BitcodeReplay.Tool
