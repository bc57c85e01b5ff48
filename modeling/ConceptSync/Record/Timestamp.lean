import ConceptSync.Text.Characters

set_option autoImplicit false
set_option relaxedAutoImplicit false

/-!
Points of time as UTC calendar dates and clock times with nanoseconds, written and read in the
internet date format. A clock time may name a leap second by sixty seconds.
-/

namespace ConceptSync

/-- A date of the proleptic Gregorian calendar and a time of day. -/
structure Timestamp where
  year : Int
  month : Nat
  day : Nat
  hour : Nat
  minute : Nat
  second : Nat
  nanos : Nat
deriving DecidableEq, Repr

namespace Timestamp

def isLeapYear (year : Int) : Bool :=
  year % 4 == 0 && (year % 100 != 0 || year % 400 == 0)

def daysInMonth (year : Int) (month : Nat) : Nat :=
  if month = 2 then (if isLeapYear year then 29 else 28)
  else if month ∈ [4, 6, 9, 11] then 30
  else 31

def minYear : Int := -262143

def maxYear : Int := 262142

def isValid (t : Timestamp) : Bool :=
  decide (minYear ≤ t.year ∧ t.year ≤ maxYear ∧ 1 ≤ t.month ∧ t.month ≤ 12 ∧ 1 ≤ t.day ∧
    t.day ≤ daysInMonth t.year t.month ∧ t.hour ≤ 23 ∧ t.minute ≤ 59 ∧ t.second ≤ 60 ∧
    t.nanos < 1000000000)

def epoch : Timestamp := ⟨1970, 1, 1, 0, 0, 0, 0⟩

def nextDay (t : Timestamp) : Timestamp :=
  if t.day < daysInMonth t.year t.month then { t with day := t.day + 1 }
  else if t.month < 12 then { t with month := t.month + 1, day := 1 }
  else { t with year := t.year + 1, month := 1, day := 1 }

def previousDay (t : Timestamp) : Timestamp :=
  if 1 < t.day then { t with day := t.day - 1 }
  else if 1 < t.month then
    { t with month := t.month - 1, day := daysInMonth t.year (t.month - 1) }
  else { t with year := t.year - 1, month := 12, day := 31 }

/-- Move by less than a day, given in minutes. -/
def addMinutes (t : Timestamp) (minutes : Int) : Timestamp :=
  let total : Int := (t.hour * 60 + t.minute : Nat) + minutes
  let clock := (total % 1440).toNat
  let moved := { t with hour := clock / 60, minute := clock % 60 }
  if total < 0 then moved.previousDay
  else if 1440 ≤ total then moved.nextDay
  else moved

/-- A number with leading zeros up to a width. -/
def padded (width n : Nat) : String :=
  let digits := toString n
  String.ofList (List.replicate (width - digits.length) '0') ++ digits

/-- Years of four digits are plain, all others signed. -/
def yearText (year : Int) : String :=
  if 0 ≤ year ∧ year ≤ 9999 then padded 4 year.toNat
  else if year < 0 then "-" ++ padded 4 year.natAbs
  else "+" ++ padded 4 year.natAbs

/-- A fraction of three, six or nine digits, none if it is zero. -/
def fractionText (nanos : Nat) : String :=
  if nanos = 0 then ""
  else if nanos % 1000000 = 0 then "." ++ padded 3 (nanos / 1000000)
  else if nanos % 1000 = 0 then "." ++ padded 6 (nanos / 1000)
  else "." ++ padded 9 nanos

def text (t : Timestamp) : String :=
  yearText t.year ++ "-" ++ padded 2 t.month ++ "-" ++ padded 2 t.day ++ "T" ++
    padded 2 t.hour ++ ":" ++ padded 2 t.minute ++ ":" ++ padded 2 t.second ++
    fractionText t.nanos ++ "Z"

/-- The number of up to `width` digits at the front. -/
def readDigits? (width : Nat) (cs : List Char) : Option (Nat × List Char) :=
  let digits := (cs.take width).takeWhile Char.isDigit
  if digits.isEmpty then none
  else some (digits.foldl (fun n c => n * 10 + (c.toNat - '0'.toNat)) 0, cs.drop digits.length)

/-- A number of up to two digits after blanks. -/
def readField? (cs : List Char) : Option (Nat × List Char) := readDigits? 2 (Text.skipBlanks cs)

/-- A year: up to four digits, any number of them after a sign. -/
def readYear? (cs : List Char) : Option (Int × List Char) :=
  match Text.skipBlanks cs with
  | '-' :: rest => (readDigits? rest.length rest).map fun (n, rest) => (-(n : Int), rest)
  | '+' :: rest => (readDigits? rest.length rest).map fun (n, rest) => ((n : Int), rest)
  | rest => (readDigits? 4 rest).map fun (n, rest) => ((n : Int), rest)

/-- A mark after blanks. -/
def readMark? (mark : Char) (cs : List Char) : Option (List Char) :=
  match Text.skipBlanks cs with
  | c :: rest => if c = mark then some rest else none
  | [] => none

/-- The nanoseconds after a point. Digits beyond the ninth are dropped. -/
def readFraction? : List Char → Option (Nat × List Char)
  | '.' :: rest =>
    (readDigits? 9 rest).map fun (n, after) =>
      (n * Nat.pow 10 (9 - (rest.length - after.length)), after.dropWhile Char.isDigit)
  | cs => some (0, cs)

def twoDigits? : List Char → Option (Nat × List Char)
  | a :: b :: rest =>
    if a.isDigit && b.isDigit then
      some ((a.toNat - '0'.toNat) * 10 + (b.toNat - '0'.toNat), rest)
    else none
  | _ => none

/-- The hours and minutes of an offset after its sign, in minutes below a day. -/
def readOffsetSize? (cs : List Char) : Option (Int × List Char) := do
  let (hours, rest) ← twoDigits? cs
  let (minutes, rest) ← twoDigits? (rest.dropWhile fun c => c = ':' || Text.isBlank c)
  if minutes ≤ 59 ∧ hours ≤ 23 then some ((hours * 60 + minutes : Nat), rest) else none

/-- An offset from UTC in minutes: a letter, a name or a signed size. -/
def readOffset? (cs : List Char) : Option (Int × List Char) :=
  match cs with
  | 'Z' :: rest => some (0, rest)
  | 'z' :: rest => some (0, rest)
  | '+' :: rest => readOffsetSize? rest
  | '-' :: rest => (readOffsetSize? rest).map fun (n, rest) => (-n, rest)
  | '\u2212' :: rest => (readOffsetSize? rest).map fun (n, rest) => (-n, rest)
  | u :: t :: c :: rest =>
    if u.toUpper = 'U' ∧ t.toUpper = 'T' ∧ c.toUpper = 'C' then some (0, rest) else none
  | _ => none

/-- A date, a mark, a time of day and an offset. -/
def parse? (s : String) : Option Timestamp := do
  let (year, cs) ← readYear? s.toList
  let cs ← readMark? '-' cs
  let (month, cs) ← readField? cs
  let cs ← readMark? '-' cs
  let (day, cs) ← readField? cs
  let cs ← match cs with
    | 'T' :: rest => some rest
    | 't' :: rest => some rest
    | ' ' :: rest => some rest
    | _ => none
  let (hour, cs) ← readField? cs
  let cs ← readMark? ':' cs
  let (minute, cs) ← readField? cs
  let cs ← readMark? ':' cs
  let (second, cs) ← readField? cs
  let (nanos, cs) ← readFraction? cs
  let (offset, cs) ← readOffset? (Text.skipBlanks cs)
  let t : Timestamp := ⟨year, month, day, hour, minute, second, nanos⟩
  let utc := t.addMinutes (-offset)
  -- the offset may lead out of the years that dates have
  if (Text.skipBlanks cs).isEmpty && t.isValid && utc.isValid then some utc else none

end Timestamp

end ConceptSync
