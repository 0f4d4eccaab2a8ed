import ExtensionLint.Binary64

/-! Durations and moments, and how they are written. -/
namespace ExtensionLint

def nanosPerSecond : Nat := 1000000000

structure Duration where
  seconds : Nat := 0
  /-- Nanoseconds beyond the seconds, less than one second. -/
  nanos : Nat := 0
  deriving DecidableEq, Repr

namespace Duration

def ofNanos (n : Nat) : Duration := ⟨n / nanosPerSecond, n % nanosPerSecond⟩

def toNanos (d : Duration) : Nat := d.seconds * nanosPerSecond + d.nanos

def add (a b : Duration) : Duration := ofNanos (a.toNanos + b.toNanos)

def toMillis (d : Duration) : Nat := d.toNanos / 1000000

def ofMillis (n : Nat) : Duration := ofNanos (n * 1000000)

/-- The seconds as a double, added up from doubles for the whole and the fraction. -/
def toSeconds (d : Duration) : Rat :=
  let fraction := Binary64.nearest ((d.nanos : Rat) / nanosPerSecond)
  Binary64.nearest (Binary64.nearest d.seconds + fraction)

/-- A duration for people: milliseconds, seconds, or minutes and seconds. -/
def brief (d : Duration) : String :=
  let s := d.toSeconds
  if s < 1 then s!"{d.toMillis}ms"
  else if s < 60 then s!"{Binary64.fixed 2 s}s"
  else
    let minutes := (Binary64.nearest (s / 60)).floor.toNat
    let rest := s - 60 * (s / 60).floor
    s!"{minutes}m{Binary64.fixed 1 rest}s"

end Duration

structure Timestamp where
  /-- Seconds since the start of 1970. -/
  seconds : Int
  /-- Nanoseconds beyond the seconds; one second or more in a leap second. -/
  nanos : Nat := 0
  deriving DecidableEq, Repr

structure Date where
  year : Int
  month : Nat
  day : Nat
  deriving DecidableEq, Repr

namespace Date

/-- The number of days from the start of 1970 to a date. Years start in March here, so that the leap
day is the last one. -/
def toDays (d : Date) : Int :=
  let year := if d.month ≤ 2 then d.year - 1 else d.year
  let month := (d.month + 9) % 12
  let era := year.fdiv 400
  let yearOfEra := (year - era * 400).toNat
  let dayOfYear := (153 * month + 2) / 5 + d.day - 1
  let dayOfEra := yearOfEra * 365 + yearOfEra / 4 - yearOfEra / 100 + dayOfYear
  era * 146097 + dayOfEra - 719468

def ofDays (days : Int) : Date :=
  let shifted := days + 719468
  let era := shifted.fdiv 146097
  let dayOfEra := (shifted - era * 146097).toNat
  let yearOfEra := (dayOfEra - dayOfEra / 1460 + dayOfEra / 36524 - dayOfEra / 146096) / 365
  let dayOfYear := dayOfEra - (365 * yearOfEra + yearOfEra / 4 - yearOfEra / 100)
  let month := (5 * dayOfYear + 2) / 153
  let year := era * 400 + yearOfEra
  { year := if month < 10 then year else year + 1
    month := if month < 10 then month + 3 else month - 9
    day := dayOfYear - (153 * month + 2) / 5 + 1 }

/-- The sign of a year: those of four digits do without one. -/
def sign (year : Int) : String := if year < 0 then "-" else if 9999 < year then "+" else ""

def text (d : Date) : String :=
  let year := sign d.year ++ Binary64.padded 4 d.year.natAbs
  s!"{year}-{Binary64.padded 2 d.month}-{Binary64.padded 2 d.day}"

end Date

namespace Timestamp

def date (t : Timestamp) : Date := Date.ofDays (t.seconds.fdiv 86400)

def clock (t : Timestamp) : String :=
  let s := (t.seconds - t.seconds.fdiv 86400 * 86400).toNat
  let second := s % 60 + t.nanos / nanosPerSecond
  s!"{Binary64.padded 2 (s / 3600)}:{Binary64.padded 2 (s / 60 % 60)}:{Binary64.padded 2 second}"

/-- The fraction of the second in as many groups of three digits as it needs. -/
def fraction (t : Timestamp) : String :=
  let n := t.nanos % nanosPerSecond
  if n = 0 then ""
  else if n % 1000000 = 0 then s!".{Binary64.padded 3 (n / 1000000)}"
  else if n % 1000 = 0 then s!".{Binary64.padded 6 (n / 1000)}"
  else s!".{Binary64.padded 9 n}"

def document (t : Timestamp) : String := s!"{t.date.text}T{t.clock}{t.fraction}Z"

def brief (t : Timestamp) : String := s!"{t.date.text} {t.clock} UTC"

def number? (width : Nat) (s : List Char) : Option (Nat × List Char) :=
  let digits := s.take width
  if digits.length = width ∧ digits.all Char.isDigit = true then
    some (digits.foldl (fun n c => n * 10 + (c.toNat - '0'.toNat)) 0, s.drop width)
  else none

def mark? (allowed : List Char) : List Char → Option (List Char)
  | c :: s => if c ∈ allowed then some s else none
  | [] => none

def fraction? : List Char → Option (Nat × List Char)
  | '.' :: s =>
    let (digits, rest) := s.span Char.isDigit
    let nine := (digits ++ List.replicate 9 '0').take 9
    if digits.isEmpty then none
    else some (nine.foldl (fun n c => n * 10 + (c.toNat - '0'.toNat)) 0, rest)
  | s => some (0, s)

/-- Reads a distance from universal time in seconds; its sign may be a hyphen or a minus sign. -/
def offset? (s : List Char) : Option (Int × List Char) := do
  match s with
  | 'Z' :: rest => return (0, rest)
  | 'z' :: rest => return (0, rest)
  | _ =>
    let rest ← mark? ['+', '-', '\u2212'] s
    let (hours, rest) ← number? 2 rest
    let rest ← mark? [':'] rest
    let (minutes, rest) ← number? 2 rest
    let distance : Int := hours * 3600 + minutes * 60
    if hours < 24 ∧ minutes < 60 then
      return (if s.head? = some '+' then distance else -distance, rest)
    else none

/-- Reads a day that the calendar has. -/
def date? (s : List Char) : Option (Date × List Char) := do
  let (year, s) ← number? 4 s
  let (month, s) ← number? 2 (← mark? ['-'] s)
  let (day, s) ← number? 2 (← mark? ['-'] s)
  let date : Date := ⟨year, month, day⟩
  if Date.ofDays date.toDays = date then return (date, s) else none

def parse? (s : String) : Option Timestamp := do
  let (date, s) ← date? s.toList
  let (hour, s) ← number? 2 (← mark? ['T', 't', ' '] s)
  let (minute, s) ← number? 2 (← mark? [':'] s)
  let (second, s) ← number? 2 (← mark? [':'] s)
  let (nanos, s) ← fraction? s
  let (offset, s) ← offset? s
  if s.isEmpty ∧ hour < 24 ∧ minute < 60 ∧ second ≤ 60 then
    let leap : Nat := if second = 60 then 1 else 0
    let time : Int := hour * 3600 + minute * 60 + (second - leap : Nat)
    return ⟨date.toDays * 86400 + time - offset, nanos + leap * nanosPerSecond⟩
  else none

end Timestamp
end ExtensionLint
