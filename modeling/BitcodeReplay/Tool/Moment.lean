import BitcodeReplay.Tool.Basic

/-!
Moments on the calendar, counted in milliseconds from the start of the year 1970, and how dates are
read and written.
-/

namespace BitcodeReplay.Tool

/-- A day on the calendar and a time of that day. -/
structure Moment where
  year : Int
  month : Nat
  day : Nat
  hour : Nat
  minute : Nat
  second : Nat
  milli : Nat
  deriving DecidableEq, Repr

namespace Moment

def isLeap (year : Int) : Bool := year % 4 == 0 && (year % 100 != 0 || year % 400 == 0)

def monthLengths (year : Int) : List Nat :=
  [31, if isLeap year then 29 else 28, 31, 30, 31, 30, 31, 31, 30, 31, 30, 31]

/-- The days before the first day of a year. -/
def daysBeforeYear (year : Int) : Int :=
  let y := year - 1
  365 * (year - 1970) + (y / 4 - 1969 / 4) - (y / 100 - 1969 / 100) + (y / 400 - 1969 / 400)

/-- The number of a day in its year, from zero on. -/
def dayOfYear (m : Moment) : Nat :=
  ((monthLengths m.year).take (m.month - 1)).foldl (· + ·) 0 + m.day - 1

def days (m : Moment) : Int := daysBeforeYear m.year + m.dayOfYear

/-- The days of a week start with Sunday. -/
def weekday (m : Moment) : Nat := ((m.days + 4) % 7).toNat

def toMillis (m : Moment) : Int :=
  (((m.days * 24 + m.hour) * 60 + m.minute) * 60 + m.second) * 1000 + m.milli

/-- The month and the day of a day in a year. -/
def monthAndDay : List Nat → Nat → Nat → Nat × Nat
  | [], month, day => (month, day + 1)
  | length :: rest, month, day =>
    if day < length then (month, day + 1) else monthAndDay rest (month + 1) (day - length)

def ofMillis (t : Int) : Moment :=
  let day := t / 86400000
  let rest := (t % 86400000).toNat
  let guess := 1970 + day * 400 / 146097
  let year :=
    if day < daysBeforeYear guess then guess - 1
    else if daysBeforeYear (guess + 1) ≤ day then guess + 1
    else guess
  let (month, dayOfMonth) := monthAndDay (monthLengths year) 1 (day - daysBeforeYear year).toNat
  ⟨year, month, dayOfMonth, rest / 3600000, rest / 60000 % 60, rest / 1000 % 60, rest % 1000⟩

/-- Whether there is such a day and such a time. -/
def isValid (m : Moment) : Bool :=
  1 ≤ m.month && m.month ≤ 12 && 1 ≤ m.day &&
    m.day ≤ ((monthLengths m.year)[m.month - 1]?).getD 0 && m.hour < 24 && m.minute < 60 &&
    m.second ≤ 60

def monthNames : List String :=
  ["January", "February", "March", "April", "May", "June", "July", "August", "September",
    "October", "November", "December"]

def dayNames : List String :=
  ["Sunday", "Monday", "Tuesday", "Wednesday", "Thursday", "Friday", "Saturday"]

/-- A number filled up at its start to a width. -/
def padded (fill : Char) (width n : Nat) : Octets :=
  let digits := Octets.ofNat n
  List.replicate (width - digits.length) fill ++ digits

def two (n : Nat) : Octets := padded '0' 2 n

def nameIn (names : List String) (n : Nat) : Octets := ((names[n]?).getD "").toList

/-- What a letter of a date format stands for. -/
def field? (m : Moment) (c : Char) : Option Octets :=
  let twelve := if m.hour % 12 = 0 then 12 else m.hour % 12
  let yearText := if m.year < 0 then '-' :: Octets.ofNat m.year.natAbs else Octets.ofNat m.year.natAbs
  let date := yearText ++ '-' :: two m.month ++ '-' :: two m.day
  let clock := two m.hour ++ ':' :: two m.minute
  let full := clock ++ ':' :: two m.second
  match c with
  | '%' => some ['%']
  | 'n' => some ['\n']
  | 't' => some ['\t']
  | 'Y' | 'G' => some yearText
  | 'C' => some (two (m.year.natAbs / 100))
  | 'y' | 'g' => some (two (m.year.natAbs % 100))
  | 'm' => some (two m.month)
  | 'd' => some (two m.day)
  | 'e' => some (padded ' ' 2 m.day)
  | 'H' => some (two m.hour)
  | 'k' => some (padded ' ' 2 m.hour)
  | 'I' => some (two twelve)
  | 'l' => some (padded ' ' 2 twelve)
  | 'M' => some (two m.minute)
  | 'S' => some (two m.second)
  | 'N' => some (padded '0' 3 m.milli ++ List.replicate 6 '0')
  | 's' =>
    let seconds := m.toMillis / 1000
    some ((if seconds < 0 then ['-'] else []) ++ Octets.ofNat seconds.natAbs)
  | 'q' => some (Octets.ofNat ((m.month + 2) / 3))
  | 'j' => some (padded '0' 3 (m.dayOfYear + 1))
  | 'a' => some ((nameIn dayNames m.weekday).take 3)
  | 'A' => some (nameIn dayNames m.weekday)
  | 'b' | 'h' => some ((nameIn monthNames (m.month - 1)).take 3)
  | 'B' => some (nameIn monthNames (m.month - 1))
  | 'u' => some (Octets.ofNat (if m.weekday = 0 then 7 else m.weekday))
  | 'w' => some (Octets.ofNat m.weekday)
  | 'p' => some (text (if m.hour < 12 then "AM" else "PM"))
  | 'P' => some (text (if m.hour < 12 then "am" else "pm"))
  | 'Z' => some (text "UTC")
  | 'z' => some (text "+0000")
  | 'F' => some date
  | 'T' | 'X' => some full
  | 'R' => some clock
  | 'D' | 'x' => some (two m.month ++ '/' :: two m.day ++ '/' :: two (m.year.natAbs % 100))
  | 'r' => some (two twelve ++ (full.drop 2) ++ text (if m.hour < 12 then " AM" else " PM"))
  | 'c' =>
    some ((nameIn dayNames m.weekday).take 3 ++ ' ' :: (nameIn monthNames (m.month - 1)).take 3 ++
      ' ' :: padded ' ' 2 m.day ++ ' ' :: full ++ ' ' :: yearText)
  | 'U' => some (two ((m.dayOfYear + 7 - m.weekday) / 7))
  | 'W' => some (two ((m.dayOfYear + 7 - (m.weekday + 6) % 7) / 7))
  | _ => none

/-- Writes a moment in a format. -/
def write (m : Moment) : Octets → Octets
  | '%' :: '-' :: c :: rest =>
    match m.field? c with
    | some shown =>
      let bare := shown.dropWhile fun c => c == '0' || c == ' '
      (if bare = [] then shown.drop (shown.length - 1) else bare) ++ write m rest
    | none => '%' :: '-' :: c :: write m rest
  | '%' :: c :: rest =>
    match m.field? c with
    | some shown => shown ++ write m rest
    | none => '%' :: c :: write m rest
  | c :: rest => c :: write m rest
  | [] => []

/-- What has been read of a date. Units without a date count from now. -/
structure Draft where
  day : Option (Int × Nat × Nat)
  time : Option (Nat × Nat × Nat × Nat)
  zone : Int
  months : Int
  millis : Int

/-- Numbers between separators. -/
def numbers? (separator : Char) (word : Octets) : Option (List Nat) :=
  (word.splitOn separator).mapM decimal?

/-- A time of day, which may have parts of a second. -/
def time? (word : Octets) : Option (Nat × Nat × Nat × Nat) :=
  let whole := word.takeWhile (· != '.')
  let fraction := (word.drop (whole.length + 1)).take 3
  let milli := Shell.Arithmetic.digitsValue 10 (fraction ++ List.replicate (3 - fraction.length) '0')
  match numbers? ':' whole with
  | some [h, m] => if h < 24 && m < 60 && fraction = [] then some (h, m, 0, 0) else none
  | some [h, m, s] => if h < 24 && m < 60 && s ≤ 60 then some (h, m, s, milli) else none
  | _ => none

/-- How far a zone is from the one in which days are counted, in minutes. -/
def zone? (word : Octets) : Option Int :=
  match word with
  | ['Z'] | ['U', 'T', 'C'] | ['G', 'M', 'T'] | ['u', 't', 'c'] | ['z'] => some 0
  | sign :: rest =>
    if sign = '+' || sign = '-' then
      let digits := rest.filter (· != ':')
      let direction : Int := if sign = '+' then 1 else -1
      match digits.length, decimal? digits with
      | 2, some n => some (direction * (60 * n))
      | 4, some n => some (direction * (60 * (n / 100) + n % 100))
      | _, _ => none
    else none
  | [] => none

/-- A time with a zone right behind it. -/
def zonedTime? (word : Octets) : Option ((Nat × Nat × Nat × Nat) × Option Int) :=
  let clock := word.takeWhile fun c => Text.isDigit c || c == ':' || c == '.'
  let rest := word.drop clock.length
  match time? clock, zone? rest with
  | some t, some z => some (t, some z)
  | some t, none => if rest = [] then some (t, none) else none
  | none, _ => none

def monthNumber? (word : Octets) : Option Nat :=
  let lower := fun w : Octets => w.map Char.toLower
  let found := monthNames.findIdx? fun name =>
    lower name.toList == lower word || lower (name.toList.take 3) == lower word
  found.map (· + 1)

def yearOf (digits : Nat) (n : Nat) : Int :=
  if digits ≤ 2 then (if n < 69 then 2000 + n else 1900 + n) else n

/-- A day in one of the orders in which its parts are written. -/
def day? (word : Octets) : Option (Int × Nat × Nat) :=
  match numbers? '-' word, numbers? '/' word with
  | some [y, m, d], _ => some (yearOf (word.takeWhile Text.isDigit).length y, m, d)
  | _, some [m, d, y] => some (yearOf (word.reverse.takeWhile Text.isDigit).length y, m, d)
  | _, _ =>
    match word.length, decimal? word with
    | 8, some n => some (n / 10000, n / 100 % 100, n % 100)
    | _, _ => none

/-- The months and the milliseconds of a unit of time. -/
def unitOf? (word : Octets) : Option (Int × Int) :=
  let word := word.map Char.toLower
  let word := if word.getLast? = some 's' then word.dropLast else word
  match String.ofList word with
  | "sec" | "second" => some (0, 1000)
  | "min" | "minute" => some (0, 60000)
  | "hour" => some (0, 3600000)
  | "day" => some (0, 86400000)
  | "week" => some (0, 604800000)
  | "fortnight" => some (0, 1209600000)
  | "month" => some (1, 0)
  | "year" => some (12, 0)
  | _ => none

def Draft.add (d : Draft) (count : Int) (unit : Int × Int) : Draft :=
  { d with months := d.months + count * unit.1, millis := d.millis + count * unit.2 }

/-- A whole number with a sign. -/
def integer? (word : Octets) : Option Int :=
  match word with
  | '-' :: digits => (decimal? digits).map fun n => -(n : Int)
  | '+' :: digits => (decimal? digits).map fun n => (n : Int)
  | digits => (decimal? digits).map fun n => (n : Int)

/-- What a word of a date and those behind it that belong to it say, and the words after them. -/
def readWord (d : Draft) (word : Octets) (rest : List Octets) : Option (Draft × List Octets) :=
  match String.ofList (word.map Char.toLower), rest with
  | "now", _ | "today", _ => some (d, rest)
  | "yesterday", _ => some (d.add (-1) (0, 86400000), rest)
  | "tomorrow", _ => some (d.add 1 (0, 86400000), rest)
  | "ago", _ => some ({ d with months := -d.months, millis := -d.millis }, rest)
  | "next", unit :: more => (unitOf? unit).map fun u => (d.add 1 u, more)
  | "last", unit :: more => (unitOf? unit).map fun u => (d.add (-1) u, more)
  | _, _ =>
    match day? word, zonedTime? word, unitOf? word with
    | some day, _, _ => some ({ d with day := some day }, rest)
    | _, some (time, z), _ => some ({ d with time := some time, zone := z.getD d.zone }, rest)
    | _, _, some unit => some (d.add 1 unit, rest)
    | _, _, _ =>
      match (word.splitOn 'T').flatMap (·.splitOn 't'), integer? word, rest with
      | [day, time], _, _ =>
        match day? day, zonedTime? time with
        | some day, some (time, z) =>
          some ({ d with day := some day, time := some time, zone := z.getD d.zone }, rest)
        | _, _ => none
      | _, some n, unit :: more =>
        match unitOf? unit, monthNumber? unit, more with
        | some u, _, _ => some (d.add n u, more)
        | none, some month, year :: more =>
          (decimal? year).map fun y =>
            ({ d with day := some (yearOf year.length y, month, n.toNat) }, more)
        | _, _, _ => none
      | _, _, _ =>
        match zone? word, monthNumber? word, rest with
        | some z, _, _ => some ({ d with zone := z }, rest)
        | _, some month, day :: year :: more =>
          match decimal? (day.filter (· != ',')), decimal? year with
          | some n, some y => some ({ d with day := some (yearOf year.length y, month, n) }, more)
          | _, _ => none
        | _, _, _ => none

/-- Reads the words of a date. The first argument bounds their number. -/
def readWords : Nat → Draft → List Octets → Option Draft
  | 0, d, _ => some d
  | _, d, [] => some d
  | bound + 1, d, word :: rest =>
    (readWord d word rest).bind fun (d, rest) => readWords bound d rest

/-- The moment that a text names, seen from another. -/
def read? (now : Int) (t : Octets) : Option Int :=
  let words := (t.splitOnP fun c => c == ' ' || c == '\t' || c == '\n').filter (· ≠ [])
  match words with
  | [] =>
    let m := ofMillis now
    some (toMillis { m with hour := 0, minute := 0, second := 0, milli := 0 })
  | ['@' :: number] =>
    let whole := number.takeWhile (· != '.')
    let fraction := ((number.drop (whole.length + 1)).take 3)
    let milli := Shell.Arithmetic.digitsValue 10 (fraction ++ List.replicate (3 - fraction.length) '0')
    (integer? whole).map fun n => n * 1000 + milli
  | _ =>
    (readWords (words.length + 1) ⟨none, none, 0, 0, 0⟩ words).bind fun d =>
      let here := ofMillis now
      let (year, month, day) := d.day.getD (here.year, here.month, here.day)
      let (h, m, s, milli) := d.time.getD
        (if d.day.isSome then (0, 0, 0, 0) else (here.hour, here.minute, here.second, here.milli))
      let start : Moment := ⟨year, month, day, h, m, s, milli⟩
      if !start.isValid then none
      else
        let months := year * 12 + (month - 1 : Nat) + d.months
        let first : Moment := ⟨months / 12, (months % 12).toNat + 1, 1, h, m, s, milli⟩
        some (first.toMillis + ((day - 1 : Nat) : Int) * 86400000 - d.zone * 60000 + d.millis)

/-- The moment that digits without separators name, in the order of month, day, hour and minute, with
the year before them and the seconds behind a point. -/
def ofDigits? (now : Int) (t : Octets) : Option Int :=
  let main := t.takeWhile (· != '.')
  let second? := if main.length = t.length then some 0
    else if (t.drop (main.length + 1)).length = 2 then decimal? (t.drop (main.length + 1)) else none
  match decimal? main, second?, main.length with
  | some n, some second, size =>
    let year? : Option Int := match size with
      | 8 => some (ofMillis now).year
      | 10 => some (yearOf 2 (n / 100000000))
      | 12 => some (n / 100000000)
      | _ => none
    year?.bind fun year =>
      let m : Moment :=
        ⟨year, n / 1000000 % 100, n / 10000 % 100, n / 100 % 100, n % 100, second, 0⟩
      if m.isValid then some m.toMillis else none
  | _, _, _ => none

end Moment

end BitcodeReplay.Tool
