import BitcodeReplay.Text.Utf8

/-!
Tables of values under keys. The keys stand in buckets by their texts, and in others by their numbers
as far as they have been used as numbers; the one that was looked for last stands in front. All keys
are listed bucket by bucket.
-/

namespace BitcodeReplay.Tool.Awk

/-- What a value in a table stands under. -/
inductive Key where
  | number (n : Int)
  | text (t : Octets)
  deriving DecidableEq, Repr

/-- The text of a whole number. -/
def wholeText (n : Int) : Octets := if n < 0 then '-' :: Octets.ofNat n.natAbs else Octets.ofNat n.natAbs

def Key.toText : Key → Octets
  | .number n => wholeText n
  | .text t => t

/-- A number for a text by which it is put into a bucket: of each character in turn its bits are
mixed in, and the result is multiplied. -/
def bucketNumber (t : Octets) : UInt32 :=
  t.foldl (fun h c => (h ^^^ c.toNat.toUInt32) * 16777619) 2166136261

/-- A value and what is known of its key. -/
structure Cell (α : Type) where
  value : α
  name : Option Octets
  number : Option Int

/-- A table. One that was made of a row of values has them in `row`, until it has to have buckets.
`byName` and `byNumber` hold the places of cells; `named` says whether all cells are in `byName`. -/
structure Table (α : Type) where
  row : Array α
  cells : Array (Cell α)
  byName : Array (List Nat)
  byNumber : Array (List Nat)
  named : Bool
  count : Nat

namespace Table

variable {α : Type}

/-- How many buckets a table has at first, and how many values it has for each before it gets more. -/
def leastBuckets : Nat := 64

def mostEach : Nat := 12

def empty : Table α := ⟨#[], #[], #[], #[], false, 0⟩

/-- A table of values under the numbers from one on. -/
def ofRow (values : Array α) : Table α := { (empty : Table α) with row := values }

def size (t : Table α) : Nat := if t.row.isEmpty then t.count else t.row.size

/-- How many buckets are needed for so many values. The first argument bounds the doublings. -/
def bucketsFor (count : Nat) : Nat → Nat → Nat
  | 0, buckets => buckets
  | bound + 1, buckets =>
    if mostEach * buckets < count then bucketsFor count bound (2 * buckets) else buckets

def nameBucket (t : Table α) (name : Octets) : Nat := (bucketNumber name).toNat % t.byName.size

def numberBucket (t : Table α) (n : Int) : Nat := (n % (t.byNumber.size : Int)).toNat

def pushName (t : Table α) (name : Octets) (place : Nat) : Table α :=
  { t with byName := t.byName.modify (t.nameBucket name) (place :: ·) }

def pushNumber (t : Table α) (n : Int) (place : Nat) : Table α :=
  { t with byNumber := t.byNumber.modify (t.numberBucket n) (place :: ·) }

/-- Gives a table buckets. -/
def opened (t : Table α) : Table α :=
  if !t.row.isEmpty then
    let n := t.row.size
    let buckets := bucketsFor n n leastBuckets
    let bare : Table α := ⟨#[], t.row.mapIdx fun i v => ⟨v, none, some (i + 1 : Nat)⟩,
      .replicate buckets [], .replicate buckets [], false, n⟩
    (List.range n).foldl (fun t i => t.pushNumber (i + 1 : Nat) i) bare
  else if t.byName.isEmpty then
    { t with byName := .replicate leastBuckets [], byNumber := .replicate leastBuckets [] }
  else t

/-- Puts all keys into buckets by their texts. -/
def withNames (t : Table α) : Table α :=
  if t.named then t
  else
    let add := fun (t : Table α) (place : Nat) =>
      match t.cells[place]? with
      | some ⟨value, none, some n⟩ =>
        let name := wholeText n
        { t with cells := t.cells.set! place ⟨value, some name, some n⟩ }.pushName name place
      | _ => t
    { t.byNumber.foldl (fun t places => places.foldl add t) t with named := true }

/-- Doubles the buckets. Those in a bucket that stay in it, and those that move, keep their order. -/
def doubled (t : Table α) : Table α :=
  let n := 2 * t.byName.size
  let split := fun (all : Array (List Nat)) (bucket : Nat → Nat) =>
    let part := fun moved : Bool => all.mapIdx fun i places =>
      places.filter fun place => (bucket place != i) == moved
    part false ++ part true
  let name := fun place => ((t.cells[place]?).bind (·.name)).getD []
  let number := fun place => ((t.cells[place]?).bind (·.number)).getD 0
  { t with
    byName := split t.byName fun place => (bucketNumber (name place)).toNat % n
    byNumber := split t.byNumber fun place => (number place % (n : Int)).toNat }

/-- Makes room for one more value. -/
def grown (t : Table α) : Table α :=
  let t := { t with count := t.count + 1 }
  if mostEach * t.byName.size < t.count then t.doubled else t

/-- Moves a place to the front of a bucket. -/
def toFront (place : Nat) (places : List Nat) : List Nat := place :: places.filter (· != place)

/-- The place of a value under a text, which is looked for, and put there if it is wanted and missing. -/
def findName (t : Table α) (name : Octets) (wanted : Option α) : Option Nat × Table α :=
  let t := t.opened.withNames
  let bucket := t.nameBucket name
  let places := t.byName.getD bucket []
  match places.find? fun place => ((t.cells[place]?).bind (·.name)) == some name with
  | some place => (some place, { t with byName := t.byName.modify bucket (toFront place) })
  | none =>
    match wanted with
    | none => (none, t)
    | some value =>
      let place := t.cells.size
      let t := { t with cells := t.cells.push ⟨value, some name, none⟩ }.grown
      (some place, t.pushName name place)

/-- The place of a value under a number, like `findName`. -/
def findNumber (t : Table α) (n : Int) (wanted : Option α) : Option Nat × Table α :=
  let t := t.opened
  let bucket := t.numberBucket n
  let places := t.byNumber.getD bucket []
  match places.find? fun place => ((t.cells[place]?).bind (·.number)) == some n with
  | some place => (some place, { t with byNumber := t.byNumber.modify bucket (toFront place) })
  | none =>
    if t.named then
      match t.findName (wholeText n) wanted with
      | (some place, t) =>
        (some place, { t with
          cells := t.cells.modify place fun c => { c with number := some n } }.pushNumber n place)
      | (none, t) => (none, t)
    else
      match wanted with
      | none => (none, t)
      | some value =>
        let place := t.cells.size
        let t := { t with cells := t.cells.push ⟨value, none, some n⟩ }.grown
        (some place, t.pushNumber n place)

/-- The index in the row that a key stands for, if the table still is one. -/
def rowIndex? (t : Table α) : Key → Option Nat
  | .number n => if 1 ≤ n && n ≤ t.row.size then some (n - 1).toNat else none
  | .text _ => none

def find (t : Table α) (k : Key) (wanted : Option α) : Option Nat × Table α :=
  match k with
  | .number n => t.findNumber n wanted
  | .text name => t.findName name wanted

/-- Whether there is a value under a key. -/
def has (t : Table α) (k : Key) : Bool × Table α :=
  if t.size = 0 then (false, t)
  else if (t.rowIndex? k).isSome then (true, t)
  else
    match k with
    | .number n =>
      if !t.row.isEmpty then (false, t)
      else
        let (place, t) := t.findNumber n none
        (place.isSome, t)
    | .text name =>
      let (place, t) := t.findName name none
      (place.isSome, t)

/-- The value under a key; if there is none, one is put there. -/
def take (t : Table α) (k : Key) (default : α) : α × Table α :=
  match t.rowIndex? k with
  | some i => (t.row.getD i default, t)
  | none =>
    let (place, t) := t.find k (some default)
    ((((place.bind (t.cells[·]?)).map (·.value))).getD default, t)

/-- Puts a value under a key. -/
def put (t : Table α) (k : Key) (value : α) : Table α :=
  match t.rowIndex? k with
  | some i => { t with row := t.row.set! i value }
  | none =>
    match t.find k (some value) with
    | (some place, t) => { t with cells := t.cells.modify place fun c => { c with value := value } }
    | (none, t) => t

/-- Removes the value under a key. -/
def erase (t : Table α) (k : Key) : Table α :=
  if t.size = 0 then t
  else
    match k with
    | .number n =>
      if !t.row.isEmpty && (t.rowIndex? (.number n)).isNone then t else remove (t.findNumber n none)
    | .text name => remove (t.findName name none)
where
  remove : Option Nat × Table α → Table α
  | (none, t) => t
  | (some place, t) =>
    if t.count ≤ 1 then empty
    else
      let drop := fun places : List Nat => places.filter (· != place)
      let cell := t.cells[place]?
      let byName := match cell.bind (·.name) with
        | some name => t.byName.modify (t.nameBucket name) drop
        | none => t.byName
      let byNumber := match cell.bind (·.number) with
        | some n => t.byNumber.modify (t.numberBucket n) drop
        | none => t.byNumber
      { t with byName := byName, byNumber := byNumber, count := t.count - 1 }

/-- The texts of all keys. -/
def keys (t : Table α) : List Octets × Table α :=
  if t.size = 0 then ([], t)
  else
    let t := t.opened.withNames
    (t.byName.toList.flatMap fun places =>
      places.filterMap fun place => (t.cells[place]?).bind (·.name), t)

end Table

end BitcodeReplay.Tool.Awk
