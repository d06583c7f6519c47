import SignalDesk.Blank
import SignalDesk.Decimal.Reading

namespace SignalDesk

/-- A day of the proleptic Gregorian calendar. -/
structure CivilDate where
  year : Int
  month : Nat
  day : Nat
deriving Repr, DecidableEq

namespace CivilDate

def isLeapYear (year : Int) : Bool := year % 4 = 0 && (year % 100 ≠ 0 || year % 400 = 0)

def monthLength (year : Int) (month : Nat) : Nat :=
  if month = 2 then if isLeapYear year then 29 else 28
  else if month = 4 ∨ month = 6 ∨ month = 9 ∨ month = 11 then 30
  else 31

def isValid (d : CivilDate) : Bool :=
  1 ≤ d.month && d.month ≤ 12 && 1 ≤ d.day && d.day ≤ monthLength d.year d.month

/-- Days since 1970-01-01. Years are counted from March, so that a leap day ends its year, in
cycles of 400 years of 146097 days. -/
def toDays (d : CivilDate) : Int :=
  let year := if d.month ≤ 2 then d.year - 1 else d.year
  let cycle := year.fdiv 400
  let yearOfCycle := year - cycle * 400
  let monthFromMarch : Int := if d.month ≤ 2 then d.month + 9 else d.month - 3
  let dayOfYear := (153 * monthFromMarch + 2).fdiv 5 + d.day - 1
  let dayOfCycle := yearOfCycle * 365 + yearOfCycle.fdiv 4 - yearOfCycle.fdiv 100 + dayOfYear
  cycle * 146097 + dayOfCycle - 719468

def ofDays (days : Int) : CivilDate :=
  let days := days + 719468
  let cycle := days.fdiv 146097
  let dayOfCycle := days - cycle * 146097
  let yearOfCycle :=
    (dayOfCycle - dayOfCycle.fdiv 1460 + dayOfCycle.fdiv 36524 - dayOfCycle.fdiv 146096).fdiv 365
  let dayOfYear := dayOfCycle - (365 * yearOfCycle + yearOfCycle.fdiv 4 - yearOfCycle.fdiv 100)
  let monthFromMarch := (5 * dayOfYear + 2).fdiv 153
  let day := dayOfYear - (153 * monthFromMarch + 2).fdiv 5 + 1
  let month := if monthFromMarch < 10 then monthFromMarch + 3 else monthFromMarch - 9
  let year := yearOfCycle + cycle * 400
  ⟨if month ≤ 2 then year + 1 else year, month.toNat, day.toNat⟩

end CivilDate

/-- A moment of universal time. A leap second is kept as the second before it with a further
thousand million nanoseconds. -/
structure Instant where
  /-- since 1970-01-01T00:00:00Z -/
  seconds : Int
  nanos : Nat
deriving Repr, DecidableEq

namespace Instant

/-- The calendar reaches from the first day of the year -262143 to the last of 262142. -/
def inRange (t : Instant) : Bool :=
  (CivilDate.toDays ⟨-262143, 1, 1⟩) * 86400 ≤ t.seconds &&
    t.seconds < (CivilDate.toDays ⟨262143, 1, 1⟩) * 86400

def padded (width n : Nat) : String :=
  let digits := Nat.toDigits 10 n
  String.ofList (List.replicate (width - digits.length) '0' ++ digits)

/-- Four digits or more; outside of 0 to 9999 the sign is written. -/
def yearText (year : Int) : String :=
  if 0 ≤ year ∧ year ≤ 9999 then padded 4 year.natAbs
  else (if year < 0 then "-" else "+") ++ padded 4 year.natAbs

def dateText (t : Instant) : String :=
  let date := CivilDate.ofDays (t.seconds.fdiv 86400)
  yearText date.year ++ "-" ++ padded 2 date.month ++ "-" ++ padded 2 date.day

/-- As few digits as show the fraction, in steps of three. -/
def fractionText (nanos : Nat) : String :=
  if nanos = 0 then ""
  else if nanos % 1000000 = 0 then "." ++ padded 3 (nanos / 1000000)
  else if nanos % 1000 = 0 then "." ++ padded 6 (nanos / 1000)
  else "." ++ padded 9 nanos

def timeText (t : Instant) : String :=
  let ofDay := (t.seconds - t.seconds.fdiv 86400 * 86400).toNat
  let leap := decide (1000000000 ≤ t.nanos)
  padded 2 (ofDay / 3600) ++ ":" ++ padded 2 (ofDay / 60 % 60) ++ ":" ++
    padded 2 (ofDay % 60 + if leap then 1 else 0) ++
    fractionText (if leap then t.nanos - 1000000000 else t.nanos)

/-- The form of documents. -/
def toText (t : Instant) : String := t.dateText ++ "T" ++ t.timeText ++ "Z"

/-- The form of messages. -/
def inWords (t : Instant) : String := t.dateText ++ " " ++ t.timeText ++ " UTC"

/-- A run of digits behind blanks: at least one, at most `width` of them are taken. -/
def readDigits (width : Option Nat) (s : List Char) : Option (Nat × List Char) :=
  let (digits, rest) := takeDigits 10 s
  let taken := (width.map digits.take).getD digits
  if taken.isEmpty then none
  else some (digitsValue 10 taken, (s.take digits.length).drop taken.length ++ rest)

/-- A year of more than four digits needs a sign. -/
def readYear (s : List Char) : Option (Int × List Char) :=
  match skipBlanks s with
  | '-' :: rest => (readDigits none rest).map fun (n, rest) => (-(n : Int), rest)
  | '+' :: rest => (readDigits none rest).map fun (n, rest) => ((n : Int), rest)
  | rest => (readDigits (some 4) rest).map fun (n, rest) => ((n : Int), rest)

def readTwo (s : List Char) : Option (Nat × List Char) := readDigits (some 2) (skipBlanks s)

/-- Skips blanks, then a mark that has to be there. -/
def expect (mark : Char) (s : List Char) : Option (List Char) :=
  match skipBlanks s with
  | c :: rest => if c = mark then some rest else none
  | [] => none

/-- Nanoseconds from the digits behind a point; digits beyond the ninth are dropped. -/
def readFraction : List Char → Option (Nat × List Char)
  | '.' :: rest =>
    match takeDigits 10 rest with
    | ([], _) => none
    | (digits, rest) =>
      let kept := digits.take 9
      some (digitsValue 10 kept * Nat.pow 10 (9 - kept.length), rest)
  | s => some (0, s)

def twoDigits? : List Char → Option (Nat × List Char)
  | a :: b :: rest => do
    let tens ← digitValue? 10 a
    let ones ← digitValue? 10 b
    some (tens * 10 + ones, rest)
  | _ => none

/-- The seconds by which local time is ahead. -/
def readOffset (s : List Char) : Option (Int × List Char) :=
  match s with
  | [] => none
  | c :: rest =>
    if c = 'Z' ∨ c = 'z' then some (0, rest)
    else if (String.ofList (s.take 3)).map Char.toUpper = "UTC" then some (0, s.drop 3)
    else do
      let sign : Int ← if c = '+' then some 1 else if c = '-' ∨ c = '−' then some (-1) else none
      let (hours, rest) ← twoDigits? rest
      let (minutes, rest) ← twoDigits? (rest.dropWhile fun c => c = ':' || isBlank c)
      if hours < 24 ∧ minutes < 60 then some (sign * (hours * 3600 + minutes * 60 : Nat), rest)
      else none

def readDate (s : List Char) : Option (CivilDate × List Char) := do
  let (year, s) ← readYear s
  let s ← expect '-' s
  let (month, s) ← readTwo s
  let s ← expect '-' s
  let (day, s) ← readTwo s
  let date : CivilDate := ⟨year, month, day⟩
  if date.isValid then some (date, s) else none

def readTime (s : List Char) : Option (Nat × Nat × List Char) := do
  let (hour, s) ← readTwo s
  let s ← expect ':' s
  let (minute, s) ← readTwo s
  let s ← expect ':' s
  let (second, s) ← readTwo s
  let (nanos, s) ← readFraction s
  if hour < 24 ∧ minute < 60 ∧ second ≤ 60 then
    let leap := second = 60
    some (hour * 3600 + minute * 60 + (if leap then 59 else second),
      nanos + (if leap then 1000000000 else 0), s)
  else none

/-- Date, time and offset, blanks being allowed between the parts. -/
def ofText? (text : String) : Option Instant := do
  let (date, s) ← readDate text.toList
  let s ← match s with
    | c :: rest => if c = 'T' ∨ c = 't' ∨ c = ' ' then some rest else none
    | [] => none
  let (ofDay, nanos, s) ← readTime s
  let (offset, s) ← readOffset (skipBlanks s)
  let t : Instant := ⟨date.toDays * 86400 + ofDay - offset, nanos⟩
  if (skipBlanks s).isEmpty && (Instant.mk (date.toDays * 86400) 0).inRange && t.inRange then some t
  else none

end Instant

end SignalDesk
