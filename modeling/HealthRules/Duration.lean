import HealthRules.Number.Binary64
import HealthRules.Number.Digits
import HealthRules.Text.Blank

/-!
# Durations

A duration is a count of seconds and of nanoseconds below one second. `Duration.ofText?` reads
spans such as `1h 30m` or `1.5s`: every span is a number of 64 bits, perhaps with a fraction, and a
unit; spans are summed. White space may stand at the ends, between spans, between a number and its
unit and among digits. A sum or product that leaves 64 bits, and a fraction that is not a whole
number of nanoseconds (of seconds, from hours on), make a text no duration.

`Duration.literal?` is the stricter form that a condition may hold: it starts with a digit and ends
with an ASCII letter. `Duration.milliseconds` is the binary number by which durations are compared:
seconds and the fraction are rounded, added, and multiplied by 1000.
-/

namespace HealthRules

/-- Seconds, and the nanoseconds beyond them. -/
structure Duration where
  seconds : UInt64
  nanoseconds : Fin 1000000000
deriving DecidableEq, Repr

namespace Duration

open Number (Binary64 maxUnsigned64)

def zero : Duration := ⟨0, 0⟩

/-- Nanoseconds in a second. -/
def nanosPerSecond : Nat := 1000000000

/-- A number, if it fits 64 bits. -/
def fit? (n : Nat) : Option Nat :=
  if n ≤ maxUnsigned64 then some n else none

/-- The duration of some seconds and any number of nanoseconds, if its seconds fit 64 bits. -/
def ofParts? (seconds nanoseconds : Nat) : Option Duration :=
  (fit? (seconds + nanoseconds / nanosPerSecond)).map fun s =>
    ⟨UInt64.ofNat s, Fin.ofNat 1000000000 nanoseconds⟩

/-- The whole milliseconds of a duration. -/
def wholeMilliseconds (d : Duration) : Nat :=
  d.seconds.toNat * 1000 + d.nanoseconds.val / 1000000

/-! ## Units -/

/-- A unit of a span. Spans of units below a second are counted in nanoseconds, the others in
seconds. -/
inductive TimeUnit where
  | nanosecond
  | microsecond
  | millisecond
  | second
  | minute
  | hour
  | day
  | week
  | month
  | year
deriving DecidableEq, Repr

namespace TimeUnit

/-- The names of every unit. -/
def names : List (TimeUnit × List String) :=
  [(nanosecond, ["nanos", "nsec", "ns"]),
    (microsecond, ["usec", "us", "µs"]),
    (millisecond, ["millis", "msec", "ms"]),
    (second, ["seconds", "second", "secs", "sec", "s"]),
    (minute, ["minutes", "minute", "min", "mins", "m"]),
    (hour, ["hours", "hour", "hr", "hrs", "h"]),
    (day, ["days", "day", "d"]),
    (week, ["weeks", "week", "wk", "wks", "w"]),
    (month, ["months", "month", "M"]),
    (year, ["years", "year", "yr", "yrs", "y"])]

def ofName? (name : List Char) : Option TimeUnit :=
  (names.find? fun (_, texts) => texts.contains (String.ofList name)).map (·.1)

/-- The seconds and the nanoseconds that one of the unit counts for. -/
def size : TimeUnit → Nat × Nat
  | nanosecond => (0, 1)
  | microsecond => (0, 1000)
  | millisecond => (0, 1000000)
  | second => (1, 0)
  | minute => (60, 0)
  | hour => (3600, 0)
  | day => (86400, 0)
  | week => (604800, 0)
  | month => (2630016, 0)
  | year => (31557600, 0)

/-- What a fraction of the unit is counted in: so many seconds and nanoseconds to the unit, or
nothing for a unit without fractions. -/
def fractionSize : TimeUnit → Option (Nat × Nat)
  | nanosecond => none
  | second => some (0, nanosPerSecond)
  | minute => some (0, 60 * nanosPerSecond)
  | unit => some unit.size

end TimeUnit

/-! ## Arithmetic of 64 bits -/

/-- The quotient, if there is no remainder. -/
def quotient? (n d : Nat) : Option Nat :=
  if n % d = 0 then some (n / d) else none

/-- The sum of a duration and some seconds and nanoseconds. -/
def add? (d : Duration) (seconds nanoseconds : Nat) : Option Duration := do
  let nanos ← fit? (d.nanoseconds.val + nanoseconds)
  ofParts? (d.seconds.toNat + seconds) nanos

/-! ## Reading -/

/-- The digits behind a point: their number, and the power of ten that it is divided by. -/
structure Fraction where
  numerator : Nat
  denominator : Nat
deriving DecidableEq, Repr

/-- The duration with a span added. -/
def addSpan? (d : Duration) (n : Nat) (fraction : Option Fraction) (unit : List Char) :
    Option Duration := do
  let unit ← TimeUnit.ofName? unit
  let (s, ns) := unit.size
  let d ← d.add? (← fit? (n * s)) (← fit? (n * ns))
  match fraction with
  | none => return d
  | some f =>
    let (s, ns) ← unit.fractionSize
    let seconds ← quotient? (← fit? (f.numerator * s)) f.denominator
    let nanos ← quotient? (← fit? (f.numerator * ns)) f.denominator
    d.add? seconds nanos

/-- Where a reader of spans stands: before the first, in an integer, behind the point of a number,
in a unit, or after a span. -/
inductive Place where
  | start
  | integer (n : Nat)
  | fraction (n : Nat) (f : Fraction)
  | unit (n : Nat) (f : Option Fraction) (name : List Char)
  | gap

def isUnitChar (c : Char) : Bool :=
  c.isAlpha || c == 'µ'

def digitValue (c : Char) : Nat :=
  c.toNat - 48

/-- One character further. -/
def step? (d : Duration) (place : Place) (c : Char) : Option (Duration × Place) :=
  match place with
  | .start | .gap =>
    if c.isDigit then some (d, .integer (digitValue c))
    else if Text.isBlank c then some (d, place)
    else none
  | .integer n =>
    if c.isDigit then (fit? (n * 10 + digitValue c)).map fun n => (d, .integer n)
    else if Text.isBlank c then some (d, .integer n)
    else if isUnitChar c then some (d, .unit n none [c])
    else if c = '.' then some (d, .fraction n ⟨0, 1⟩)
    else none
  | .fraction n f =>
    if c.isDigit then do
      let numerator ← fit? (f.numerator * 10 + digitValue c)
      let denominator ← fit? (f.denominator * 10)
      return (d, .fraction n ⟨numerator, denominator⟩)
    else if Text.isBlank c then some (d, .fraction n f)
    else if isUnitChar c ∧ f.denominator ≠ 1 then some (d, .unit n (some f) [c])
    else none
  | .unit n f name =>
    if c.isDigit then (d.addSpan? n f name).map fun d => (d, .integer (digitValue c))
    else if Text.isBlank c then (d.addSpan? n f name).map fun d => (d, .gap)
    else if isUnitChar c then some (d, .unit n f (name ++ [c]))
    else none

/-- The duration of the spans that were read up to the end of the text. -/
def finish? (d : Duration) : Place → Option Duration
  | .gap => some d
  | .unit n f name => d.addSpan? n f name
  | .start | .integer _ | .fraction _ _ => none

def readFrom? (d : Duration) (place : Place) : List Char → Option Duration
  | [] => d.finish? place
  | c :: cs => (d.step? place c).bind fun (d, place) => readFrom? d place cs

/-- The duration that spans write. -/
def ofText? (cs : List Char) : Option Duration :=
  readFrom? zero .start cs

/-- The duration that a literal of a condition writes. -/
def literal? (cs : List Char) : Option Duration :=
  if cs.getLast?.any Char.isAlpha ∧ cs.head?.any Char.isDigit then ofText? cs else none

/-! ## Comparing -/

/-- The milliseconds of a duration as a binary number. The seconds and the fraction of a second
are rounded on their own, their sum again, and its product with 1000 again. -/
def milliseconds (d : Duration) : Binary64 :=
  let result : Option Binary64 := do
    let seconds ← Binary64.ofNat? d.seconds.toNat
    let nanos ← Binary64.ofNat? d.nanoseconds.val
    let fraction ← nanos.div? (← Binary64.ofNat? nanosPerSecond)
    let sum ← seconds.addMagnitude? fraction
    sum.mul? (← Binary64.ofNat? 1000)
  result.getD Binary64.zero

end Duration
end HealthRules
