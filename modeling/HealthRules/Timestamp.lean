import HealthRules.Number.Digits
import HealthRules.Text.Blank

/-!
# Timestamps

A timestamp is a date and a time of day in UTC, in the proleptic Gregorian calendar, with years from
-262143 to 262142 and nanoseconds. Second 60 is a leap second. `Timestamp.ofText?` reads RFC 3339 in
a generous form: a blank in place of the `T`, blanks between the parts, numbers without their
zeros in front, years with a sign, and an offset that is taken off. `Timestamp.print` writes RFC
3339 with a `Z`, and with 0, 3, 6 or 9 fraction digits, the fewest that lose nothing.
-/

namespace HealthRules

/-- A date and a time of day. -/
structure Civil where
  year : Int
  month : Nat
  day : Nat
  hour : Nat
  minute : Nat
  second : Nat
  nanosecond : Nat
deriving DecidableEq, Repr

namespace Civil

def isLeapYear (year : Int) : Bool :=
  year % 4 == 0 && (year % 100 != 0 || year % 400 == 0)

def daysInMonth (year : Int) (month : Nat) : Nat :=
  match month with
  | 2 => if isLeapYear year then 29 else 28
  | 4 | 6 | 9 | 11 => 30
  | _ => 31

def isValid (c : Civil) : Bool :=
  -262143 ≤ c.year && c.year ≤ 262142 && 1 ≤ c.month && c.month ≤ 12
    && 1 ≤ c.day && c.day ≤ daysInMonth c.year c.month
    && c.hour ≤ 23 && c.minute ≤ 59 && c.second ≤ 60 && c.nanosecond < 1000000000

/-- The same time of the day after. -/
def nextDay (c : Civil) : Civil :=
  if c.day < daysInMonth c.year c.month then { c with day := c.day + 1 }
  else if c.month < 12 then { c with month := c.month + 1, day := 1 }
  else { c with year := c.year + 1, month := 1, day := 1 }

/-- The same time of the day before. -/
def previousDay (c : Civil) : Civil :=
  if 1 < c.day then { c with day := c.day - 1 }
  else if 1 < c.month then
    { c with month := c.month - 1, day := daysInMonth c.year (c.month - 1) }
  else { c with year := c.year - 1, month := 12, day := 31 }

/-- The time so many minutes earlier, for less than a day. -/
def minusMinutes (c : Civil) (minutes : Int) : Civil :=
  let total := (c.hour * 60 + c.minute : Nat) - minutes
  let ofDay := (total % 1440).toNat
  let c' := { c with hour := ofDay / 60, minute := ofDay % 60 }
  if total < 0 then c'.previousDay else if 1440 ≤ total then c'.nextDay else c'

end Civil

/-- A time of the calendar, in UTC. -/
structure Timestamp where
  civil : Civil
  valid : civil.isValid = true
deriving DecidableEq, Repr

namespace Timestamp

def ofCivil? (c : Civil) : Option Timestamp :=
  if h : c.isValid = true then some ⟨c, h⟩ else none

/-- The start of the year 1970. -/
def epoch : Timestamp := ⟨⟨1970, 1, 1, 0, 0, 0, 0⟩, rfl⟩

/-! ## Reading -/

/-- Reads one to `width` digits, and the digits and what follows them. -/
def digits? (width : Nat) (cs : List Char) : Option (List Char × List Char) :=
  let ds := (cs.takeWhile Char.isDigit).take width
  if ds = [] then none else some (ds, cs.drop ds.length)

/-- Reads a number of one to `width` digits behind blanks. -/
def number? (width : Nat) (cs : List Char) : Option (Nat × List Char) :=
  (digits? width (Text.trimStart cs)).map fun (ds, rest) => (Nat.ofDigitChars 10 ds 0, rest)

/-- Reads a year: up to four digits, or any number of them behind a sign. -/
def year? (cs : List Char) : Option (Int × List Char) :=
  match Text.trimStart cs with
  | '-' :: cs =>
    (digits? cs.length cs).map fun (ds, rest) => (-(Nat.ofDigitChars 10 ds 0 : Int), rest)
  | '+' :: cs =>
    (digits? cs.length cs).map fun (ds, rest) => ((Nat.ofDigitChars 10 ds 0 : Int), rest)
  | cs => (digits? 4 cs).map fun (ds, rest) => ((Nat.ofDigitChars 10 ds 0 : Int), rest)

/-- Reads one character behind blanks. -/
def mark? (c : Char) (cs : List Char) : Option (List Char) :=
  match Text.trimStart cs with
  | d :: rest => if d = c then some rest else none
  | [] => none

/-- Reads the character between date and time. -/
def divider? : List Char → Option (List Char)
  | c :: rest => if c = 'T' ∨ c = 't' ∨ c = ' ' then some rest else none
  | [] => none

/-- Reads a fraction of a second, if there is one: nine digits count. -/
def fraction? : List Char → Option (Nat × List Char)
  | '.' :: cs =>
    (digits? 9 cs).map fun (ds, rest) =>
      (Nat.ofDigitChars 10 ds 0 * Nat.pow 10 (9 - ds.length), rest.dropWhile Char.isDigit)
  | cs => some (0, cs)

/-- Reads exactly two digits. -/
def twoDigits? : List Char → Option (Nat × List Char)
  | a :: b :: rest =>
    if a.isDigit ∧ b.isDigit then some (Nat.ofDigitChars 10 [a, b] 0, rest) else none
  | _ => none

/-- Reads hours and minutes, blanks and colons between them, as minutes of less than a day. -/
def hoursAndMinutes? (cs : List Char) : Option (Int × List Char) := do
  let (hours, cs) ← twoDigits? cs
  let (minutes, cs) ← twoDigits? (cs.dropWhile fun c => c == ':' || Text.isBlank c)
  if hours ≤ 23 ∧ minutes ≤ 59 then some ((hours * 60 + minutes : Nat), cs) else none

/-- Reads an offset from UTC, in minutes. -/
def offset? (cs : List Char) : Option (Int × List Char) :=
  if (cs.take 3).map Char.toUpper = ['U', 'T', 'C'] then some (0, cs.drop 3)
  else match cs with
    | c :: rest =>
      if c = 'Z' ∨ c = 'z' then some (0, rest)
      else if c = '+' then hoursAndMinutes? rest
      else if c = '-' ∨ c = Char.ofNat 0x2212 then
        (hoursAndMinutes? rest).map fun (minutes, rest) => (-minutes, rest)
      else none
    | [] => none

/-- The timestamp that a text writes. -/
def ofText? (cs : List Char) : Option Timestamp := do
  let (year, cs) ← year? cs
  let cs ← mark? '-' cs
  let (month, cs) ← number? 2 cs
  let cs ← mark? '-' cs
  let (day, cs) ← number? 2 cs
  let cs ← divider? cs
  let (hour, cs) ← number? 2 cs
  let cs ← mark? ':' cs
  let (minute, cs) ← number? 2 cs
  let cs ← mark? ':' cs
  let (second, cs) ← number? 2 cs
  let (nanosecond, cs) ← fraction? cs
  let (offset, cs) ← offset? (Text.trimStart cs)
  guard (Text.trimStart cs).isEmpty
  let there ← ofCivil? ⟨year, month, day, hour, minute, second, nanosecond⟩
  ofCivil? (there.civil.minusMinutes offset)

/-! ## Writing -/

/-- A year: four digits, or more with a sign. -/
def printYear (year : Int) : List Char :=
  if 0 ≤ year ∧ year ≤ 9999 then Number.padded 4 year.toNat
  else (if year < 0 then '-' else '+') :: Number.padded 4 year.natAbs

/-- The fraction of a second with a point in front, or nothing. -/
def printFraction (nanosecond : Nat) : List Char :=
  if nanosecond = 0 then []
  else if nanosecond % 1000000 = 0 then '.' :: Number.padded 3 (nanosecond / 1000000)
  else if nanosecond % 1000 = 0 then '.' :: Number.padded 6 (nanosecond / 1000)
  else '.' :: Number.padded 9 nanosecond

def print (t : Timestamp) : List Char :=
  let c := t.civil
  printYear c.year ++ '-' :: Number.padded 2 c.month ++ '-' :: Number.padded 2 c.day
    ++ 'T' :: Number.padded 2 c.hour ++ ':' :: Number.padded 2 c.minute
    ++ ':' :: Number.padded 2 c.second ++ printFraction c.nanosecond ++ ['Z']

end Timestamp
end HealthRules
