/-!
File trees as values. A tree lists what stands at each location below the root directory; the root
itself is always there.
-/

namespace BitcodeReplay

/-- The names that lead from the root directory to an entry. -/
abbrev Location := List String

instance decidableEqBytes : DecidableEq ByteArray := fun a b =>
  decidable_of_iff (a.data = b.data) ⟨ByteArray.ext, congrArg ByteArray.data⟩

/-- What is no file and yet can be read or written: devices, and pipes that have a name. -/
inductive Special where
  | null
  | zero
  | full
  | random
  | terminal
  | pipe
  deriving DecidableEq, Repr

/-- What stands at a location. The target of a link is kept as it was written. -/
inductive Entry where
  | file (bytes : ByteArray) (executable : Bool)
  | dir
  | link (target : String)
  | special (kind : Special)
  deriving DecidableEq

/-- Locations stand in the order in which they were made, a directory before what it holds. -/
structure FileTree where
  entries : List (Location × Entry)

namespace FileTree

def empty : FileTree := ⟨[]⟩

/-- The entry at a location. -/
def get? (t : FileTree) (loc : Location) : Option Entry :=
  if loc = [] then some .dir else t.entries.lookup loc

def putEntry (loc : Location) (e : Entry) : List (Location × Entry) → List (Location × Entry)
  | [] => [(loc, e)]
  | (l, known) :: rest => if l = loc then (l, e) :: rest else (l, known) :: putEntry loc e rest

/-- Puts an entry at a location, in the place of what stands there. -/
def put (t : FileTree) (loc : Location) (e : Entry) : FileTree := ⟨putEntry loc e t.entries⟩

/-- The location itself, or one below it. -/
def isWithin (l top : Location) : Bool := top.isPrefixOf l

/-- Removes a location and all below it. -/
def erase (t : FileTree) (top : Location) : FileTree :=
  ⟨t.entries.filter fun p => !isWithin p.1 top⟩

/-- Moves what stands at and below a location to another, in the place of what stands there. -/
def relocate (t : FileTree) (source target : Location) : FileTree :=
  ⟨(t.entries.filter fun p => !isWithin p.1 source && !isWithin p.1 target) ++
    (t.entries.filter fun p => isWithin p.1 source).map fun p =>
      (target ++ p.1.drop source.length, p.2)⟩

/-- The entries below a location, by the names that lead to them from there. -/
def below (t : FileTree) (top : Location) : List (Location × Entry) :=
  (t.entries.filter fun p => isWithin p.1 top && p.1 != top).map fun p =>
    (p.1.drop top.length, p.2)

/-- The names in a directory, the latest first. -/
def namesIn (t : FileTree) (directory : Location) : List String :=
  ((t.below directory).filterMap fun p =>
    match p.1 with
    | [name] => some name
    | _ => none).reverse

/-- The entries below a directory, in the order of its names, each before those below it. The first
argument bounds the depth. -/
def walkBelow (t : FileTree) : Nat → Location → List (Location × Entry)
  | 0, _ => []
  | bound + 1, top =>
    (t.namesIn top).flatMap fun name =>
      match t.get? (top ++ [name]) with
      | none => []
      | some e =>
        ([name], e) ::
          if e = .dir then
            (walkBelow t bound (top ++ [name])).map fun p => (name :: p.1, p.2)
          else []

/-- The locations of all directories. -/
def directories (t : FileTree) : List Location :=
  [] :: t.entries.filterMap fun p =>
    match p.2 with
    | .dir => some p.1
    | _ => none

theorem lookup_putEntry (l loc : Location) (e : Entry) (entries : List (Location × Entry)) :
    (putEntry loc e entries).lookup l = if l = loc then some e else entries.lookup l := by
  induction entries with
  | nil =>
    by_cases h : l = loc
    · simp [putEntry, h]
    · simp [putEntry, List.lookup_cons, beq_false_of_ne h, h]
  | cons p rest ih =>
    obtain ⟨m, known⟩ := p
    by_cases hl : l = m
    · subst hl
      by_cases hm : l = loc <;> simp [putEntry, hm]
    · by_cases hm : m = loc
      · subst hm
        simp [putEntry, List.lookup_cons, beq_false_of_ne hl, hl]
      · simpa [putEntry, hm, List.lookup_cons, beq_false_of_ne hl] using ih

theorem get?_put (t : FileTree) (l loc : Location) (e : Entry) (h : loc ≠ []) :
    (t.put loc e).get? l = if l = loc then some e else t.get? l := by
  by_cases hl : l = []
  · subst hl
    simp [get?, h.symm]
  · simp [get?, put, hl, lookup_putEntry]

end FileTree

end BitcodeReplay
