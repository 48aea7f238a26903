import Runbook.Number.Numeral

/-! Timestamps, as saved trails hold them: a date, a time of day, and often how far its clock is
from universal time. They are read from text of several forms and from counts of seconds or
milliseconds since the beginning of 1970. -/
namespace Runbook

structure Date where
  year : Nat
  month : Nat
  day : Nat
  deriving DecidableEq, Inhabited

structure Timestamp where
  date : Date
  /-- Since midnight. -/
  second : Nat
  microsecond : Nat
  /-- Minutes by which the clock is ahead of universal time, if that is known. -/
  ahead : Option Int
  deriving DecidableEq, Inhabited

namespace Timestamp

/-- Why data stands for no timestamp. -/
inductive Flaw where
  | tooShort
  | yearDigit
  | monthDigit
  | dayDigit
  | noDash
  | month
  | day
  | excess
  | tooEarly
  | tooLate
  | notNumber
  | yearZero
  deriving DecidableEq, Inhabited

def Flaw.message : Flaw → String
  | .tooShort => "input is too short"
  | .yearDigit => "invalid character in year"
  | .monthDigit => "invalid character in month"
  | .dayDigit => "invalid character in day"
  | .noDash => "invalid date separator, expected `-`"
  | .month => "month value is outside expected range of 1-12"
  | .day => "day value is outside expected range"
  | .excess => "unexpected extra characters at the end of the input"
  | .tooEarly => "dates before 0000 are not supported as unix timestamps"
  | .tooLate => "dates after 9999 are not supported as unix timestamps"
  | .notNumber => "NaN values not permitted"
  | .yearZero => "year 0 is out of range"

end Timestamp

namespace Date
open Timestamp

def isLeap (year : Nat) : Bool := year % 4 == 0 && (year % 100 != 0 || year % 400 == 0)

def daysIn (year month : Nat) : Nat :=
  if month = 2 then (if isLeap year then 29 else 28)
  else if month ∈ [4, 6, 9, 11] then 30
  else 31

/-- A day of the years 1 to 9999. -/
def IsDay (d : Date) : Prop :=
  (1 ≤ d.year ∧ d.year ≤ 9999) ∧ (1 ≤ d.month ∧ d.month ≤ 12) ∧
    (1 ≤ d.day ∧ d.day ≤ daysIn d.year d.month)

instance (d : Date) : Decidable d.IsDay :=
  inferInstanceAs (Decidable ((1 ≤ d.year ∧ d.year ≤ 9999) ∧ (1 ≤ d.month ∧ d.month ≤ 12) ∧
    (1 ≤ d.day ∧ d.day ≤ daysIn d.year d.month)))

/-- The date so many days after the first of March of the year 0, or before it in that year. Counted
from there, leap days end their years, and months repeat in runs of five. -/
def ofDay (n : Int) : Date :=
  let inEra := (n % 146097).toNat
  let year := (inEra - inEra / 1460 + inEra / 36524 - inEra / 146096) / 365
  let inYear := inEra - (365 * year + year / 4 - year / 100)
  let month := (5 * inYear + 2) / 153
  let day := inYear - (153 * month + 2) / 5 + 1
  let (year, month) := if month < 10 then (year, month + 3) else (year + 1, month - 9)
  ⟨(year + 400 * (n / 146097)).toNat, month, day⟩

/-- The days from the first of March of the year 0 to the beginning of 1970. -/
def epochDay : Int := 719468

def number (flaw : Flaw) (read : Nat) : Nat → List Char → Except Flaw (Nat × List Char)
  | 0, cs => .ok (read, cs)
  | _ + 1, [] => .error flaw
  | n + 1, c :: rest =>
    if c.isDigit then number flaw (10 * read + (c.toNat - 48)) n rest else .error flaw

def dash : List Char → Except Flaw (List Char)
  | '-' :: rest => .ok rest
  | _ => .error .noDash

/-- Reads the date at the front of a text of ten bytes or more. -/
def front (cs : List Char) : Except Flaw (Date × List Char) := do
  if (String.ofList cs).utf8ByteSize < 10 then throw .tooShort
  let (year, cs) ← number .yearDigit 0 4 cs
  let cs ← dash cs
  let (month, cs) ← number .monthDigit 0 2 cs
  let cs ← dash cs
  let (day, cs) ← number .dayDigit 0 2 cs
  if month < 1 || 12 < month then throw .month
  if day < 1 || daysIn year month < day then throw .day
  pure (⟨year, month, day⟩, cs)

def read (cs : List Char) : Except Flaw Date := do
  let (date, rest) ← front cs
  if rest.isEmpty then pure date else throw .excess

end Date

namespace Timestamp

/-- Reads two digits that are not over a bound. -/
def two? (most : Nat) (cs : List Char) : Option (Nat × List Char) :=
  match Date.number .excess 0 2 cs with
  | .ok (n, rest) => if n ≤ most then some (n, rest) else none
  | .error _ => none

/-- Reads the digits of a fraction of a second, at least one; those after the sixth say nothing. -/
def fraction? (cs : List Char) : Option (Nat × List Char) :=
  match Numeral.digits Text.latinDigit? cs with
  | ([], _) => none
  | (ds, rest) => some (Numeral.ofDigits ((ds ++ List.replicate 6 0).take 6), rest)

/-- Reads the seconds, if there are any, with their millionths. -/
def seconds? : List Char → Option (Nat × Nat × List Char)
  | ':' :: cs => do
    let (second, rest) ← two? 59 cs
    match rest with
    | c :: digits =>
      if c == '.' || c == ',' then
        let (millionths, rest) ← fraction? digits
        pure (second, millionths, rest)
      else pure (second, 0, rest)
    | [] => pure (second, 0, [])
  | cs => some (0, 0, cs)

/-- The hours and minutes of a zone, a colon between them or not, in minutes. -/
def zoneMinutes? (cs : List Char) : Option Int := do
  let (hours, rest) ← two? 99 cs
  let (minutes, rest) ← two? 59 (match rest with
    | ':' :: rest => rest
    | rest => rest)
  let all := 60 * hours + minutes
  if rest.isEmpty && all < 24 * 60 then pure (all : Int) else none

/-- Reads what follows the time of day: nothing, or a zone. -/
def zone? : List Char → Option (Option Int)
  | [] => some none
  | c :: cs =>
    if c == 'Z' || c == 'z' then (if cs.isEmpty then some (some 0) else none)
    else if c == '+' then (zoneMinutes? cs).map some
    else if c == '-' || c.toNat = 0x2212 then (zoneMinutes? cs).map fun n => some (-n)
    else none

/-- What may stand between the date and the time of day. -/
def isSeparator (c : Char) : Bool := c == 'T' || c == 't' || c == ' ' || c == '_'

/-- Reads a date, a separator, a time of day and a zone. -/
def full? (cs : List Char) : Option Timestamp := do
  let (date, rest) ← (Date.front cs).toOption
  match rest with
  | [] => none
  | c :: rest =>
    if !isSeparator c then none
    else
      let (hour, rest) ← two? 23 rest
      match rest with
      | ':' :: rest =>
        let (minute, rest) ← two? 59 rest
        let (second, microsecond, rest) ← seconds? rest
        let ahead ← zone? rest
        pure ⟨date, 3600 * hour + 60 * minute + second, microsecond, ahead⟩
      | _ => none

def million : Nat := 1000000

/-- The largest count that is taken for seconds; beyond it milliseconds are counted. -/
def mostSeconds : Nat := 20000000000

/-- The beginning of the year 0, in seconds. -/
def earliest : Int := -62167219200

/-- The last second of the year 9999. -/
def latest : Int := 253402300799

/-- The time so many seconds, and millionths of a second, after the beginning of 1970. -/
def ofSeconds (seconds : Int) (millionths : Nat) : Except Flaw Timestamp :=
  let seconds := seconds + (millionths / million : Nat)
  if seconds < earliest then .error .tooEarly
  else if latest < seconds then .error .tooLate
  else
    .ok ⟨.ofDay (seconds / 86400 + Date.epochDay), (seconds % 86400).toNat, millionths % million,
      some 0⟩

/-- The time so many milliseconds, and millionths of a second, after the beginning of 1970. -/
def ofMilliseconds (n : Int) (millionths : Nat) : Except Flaw Timestamp :=
  ofSeconds (n / 1000) ((n % 1000).toNat * 1000 + millionths)

def ofCount (n : Int) : Except Flaw Timestamp :=
  if n.natAbs ≤ mostSeconds then ofSeconds n 0 else ofMilliseconds n 0

def nearest (a : Int) (b : Nat) : Binary64 := .ofRatio (a < 0) a.natAbs b

/-- The integer below a float, or at it, and how many of the given parts of one the rest makes: a
product of floats, rounded to the nearest integer, a half up. -/
def split (x : Binary64) (parts : Nat) : Int × Nat :=
  let whole := x.units / Binary64.unit
  let rest := nearest (x.units - whole * Binary64.unit) Binary64.unit
  let scaled := (nearest (rest.units * parts) Binary64.unit).units.natAbs
  (whole, (2 * scaled + Binary64.unit) / (2 * Binary64.unit))

/-- The time that a float stands for. Its fraction counts forward, also in a negative one. -/
def ofFloat : Binary64 → Except Flaw Timestamp
  | .nan => .error .notNumber
  | .inf negative => .error (if negative then .tooEarly else .tooLate)
  | x =>
    if x.units.natAbs ≤ mostSeconds * Binary64.unit then
      let (seconds, millionths) := split x million
      ofSeconds seconds millionths
    else
      let (milliseconds, millionths) := split x 1000
      ofMilliseconds milliseconds millionths

/-- Reads a whole number that a word holds. -/
def count? (cs : List Char) : Option Int :=
  let (negative, body) := Numeral.sign cs
  match Numeral.digits Text.latinDigit? body with
  | (d :: ds, []) =>
    let n : Nat := Numeral.ofDigits (d :: ds)
    let n : Int := if negative then -(n : Int) else n
    if fitsWord n then some n else none
  | _ => none

def countWithPoint? (cs : List Char) : Option Binary64 :=
  match Numeral.digits Text.latinDigit? (Numeral.sign cs).2 with
  | (_, '.' :: _) => (Numeral.decimal? Text.latinDigit? cs).map Binary64.ofDecimal
  | _ => none

/-- Reads a text: a full timestamp, a count, or a date alone, which stands for its midnight. -/
def ofText (s : String) : Except Flaw Timestamp :=
  let cs := s.toList
  match full? cs, count? cs with
  | some t, _ => .ok t
  | none, some n => ofCount n
  | none, none =>
    match (countWithPoint? cs).map ofFloat with
    | some (.ok t) => .ok t
    | _ => (Date.read cs).map fun date => ⟨date, 0, 0, none⟩

/-- The last digits of a number. -/
def digits (width n : Nat) : List Char :=
  let ds := Nat.toDigits 10 n
  List.replicate (width - ds.length) '0' ++ ds

/-- Universal time is marked by a letter, another zone by its hours and minutes. -/
def writeZone : Option Int → List Char
  | none => []
  | some ahead =>
    if ahead = 0 then ['Z']
    else (if ahead < 0 then '-' else '+') ::
      digits 2 (ahead.natAbs / 60) ++ ':' :: digits 2 (ahead.natAbs % 60)

def write (t : Timestamp) : String :=
  String.ofList
    (digits 4 t.date.year ++ '-' :: digits 2 t.date.month ++ '-' :: digits 2 t.date.day ++
      'T' :: digits 2 (t.second / 3600) ++ ':' :: digits 2 (t.second / 60 % 60) ++
      ':' :: digits 2 (t.second % 60) ++
      (if t.microsecond = 0 then [] else '.' :: digits 6 t.microsecond) ++ writeZone t.ahead)

end Timestamp

/-- What a clock that is set to universal time can show. -/
structure Instant where
  date : Date
  /-- Since midnight. -/
  second : Nat
  microsecond : Nat
  isDay : date.IsDay
  second_lt : second < 86400
  microsecond_lt : microsecond < Timestamp.million
  deriving DecidableEq

namespace Instant

def stamp (i : Instant) : Timestamp := ⟨i.date, i.second, i.microsecond, some 0⟩

/-- The beginning of 1970. -/
def epoch : Instant := ⟨⟨1970, 1, 1⟩, 0, 0, by decide, by decide, by decide⟩

instance : Inhabited Instant := ⟨epoch⟩

/-- The instant so many seconds after the beginning of 1970. -/
def ofSeconds? (n : Nat) : Option Instant :=
  match Timestamp.ofSeconds n 0 with
  | .ok t =>
    if h : t.date.IsDay ∧ t.second < 86400 ∧ t.microsecond < Timestamp.million then
      some ⟨t.date, t.second, t.microsecond, h.1, h.2.1, h.2.2⟩
    else none
  | .error _ => none

end Instant
end Runbook
