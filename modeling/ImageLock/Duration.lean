/-
Lengths of time as people write them: `1h 30m`, `10s`, `1.5days`.
-/
import ImageLock.Text.Cut
import ImageLock.Number.Decimal

namespace ImageLock

/-- A length of time in seconds and nanoseconds. -/
structure Duration where
  seconds : Nat
  nanos : Nat
deriving DecidableEq, Repr

namespace Duration

def ofSeconds (n : Nat) : Duration := ⟨n, 0⟩

def inSeconds (d : Duration) : Rat := d.seconds + d.nanos / 1000000000

inductive Unit where
  | nano
  | micro
  | milli
  | second
  | minute
  | hour
  | day
  | week
  | month
  | year
deriving DecidableEq, Repr

/-- The names of a unit. A month and a year are parts of 400 years. -/
def unitNames : List (String × Unit) :=
  [("nanos", .nano), ("nsec", .nano), ("ns", .nano),
    ("usec", .micro), ("us", .micro), ("µs", .micro),
    ("millis", .milli), ("msec", .milli), ("ms", .milli),
    ("seconds", .second), ("second", .second), ("secs", .second), ("sec", .second), ("s", .second),
    ("minutes", .minute), ("minute", .minute), ("min", .minute), ("mins", .minute), ("m", .minute),
    ("hours", .hour), ("hour", .hour), ("hrs", .hour), ("hr", .hour), ("h", .hour),
    ("days", .day), ("day", .day), ("d", .day),
    ("weeks", .week), ("week", .week), ("wk", .week), ("wks", .week), ("w", .week),
    ("months", .month), ("month", .month), ("M", .month),
    ("years", .year), ("year", .year), ("yr", .year), ("yrs", .year), ("y", .year)]

/-- Sums and products must fit in 64 bits. -/
def bounded (n : Nat) : Option Nat := if n < 0x10000000000000000 then some n else none

namespace Unit

/-- The nanoseconds of a unit below a second. -/
def nanos? : Unit → Option Nat
  | .nano => some 1
  | .micro => some 1000
  | .milli => some 1000000
  | _ => none

def seconds : Unit → Nat
  | .nano | .micro | .milli => 0
  | .second => 1
  | .minute => 60
  | .hour => 3600
  | .day => 86400
  | .week => 604800
  | .month => 2630016
  | .year => 31557600

end Unit

def add (d : Duration) (seconds nanos : Nat) : Option Duration := do
  let nanos ← bounded (d.nanos + nanos)
  let seconds ← bounded (seconds + nanos / 1000000000)
  return ⟨← bounded (d.seconds + seconds), nanos % 1000000000⟩

/-- Adds `whole` units and, if it was written, a fraction of one. Hours and
longer units count the fraction in whole seconds. -/
def addUnits (d : Duration) (unit : Unit) (whole : Nat) (fraction : Option (Nat × Nat)) :
    Option Duration := do
  let d ← match unit.nanos? with
    | some size => d.add 0 (← bounded (whole * size))
    | none => d.add (← bounded (whole * unit.seconds)) 0
  match fraction with
  | none => return d
  | some (numerator, denominator) =>
      match unit with
      | .nano => none
      | .micro | .milli | .second | .minute =>
          let size := unit.nanos?.getD (unit.seconds * 1000000000)
          d.add 0 ((← bounded (numerator * size)) / denominator)
      | _ => d.add ((← bounded (numerator * unit.seconds)) / denominator) 0

def isUnitChar (c : Char) : Bool := Text.isLetter c || c == 'µ'

/-- The digits of a number; blanks may stand between them. -/
def takeDigits : Nat → List Char → Option (Nat × List Char)
  | n, [] => some (n, [])
  | n, c :: rest =>
      if Text.isDigit c then do
        takeDigits (← bounded (n * 10 + (c.toNat - 0x30))) rest
      else if Text.isBlank c then takeDigits n rest
      else some (n, c :: rest)

/-- The digits behind a point, as a fraction. -/
def takeFraction : Nat → Nat → List Char → Option (Nat × Nat × List Char)
  | n, d, [] => some (n, d, [])
  | n, d, c :: rest =>
      if Text.isDigit c then do
        takeFraction (← bounded (n * 10 + (c.toNat - 0x30))) (← bounded (d * 10)) rest
      else if Text.isBlank c then takeFraction n d rest
      else some (n, d, c :: rest)

/-- A number with its unit, and the text behind it. -/
def takePart (text : List Char) : Option (Nat × Option (Nat × Nat) × Unit × List Char) := do
  let (whole, rest) ← takeDigits 0 text
  let (fraction, rest) ← match rest with
    | '.' :: rest =>
        let (n, d, rest) ← takeFraction 0 1 rest
        if d = 1 then none else some (some (n, d), rest)
    | rest => some (none, rest)
  let name := rest.takeWhile isUnitChar
  let rest := rest.drop name.length
  let unit ← (unitNames.find? fun u => u.1 == String.ofList name).map (·.2)
  if rest.head?.all fun c => Text.isDigit c || Text.isBlank c then
    return (whole, fraction, unit, rest)
  else none

def parseParts : Nat → Duration → List Char → Option Duration
  | 0, _, _ => none
  | fuel + 1, d, text =>
      match text.dropWhile Text.isBlank with
      | [] => some d
      | c :: rest =>
          if Text.isDigit c then do
            let (whole, fraction, unit, rest) ← takePart (c :: rest)
            parseParts fuel (← d.addUnits unit whole fraction) rest
          else none

/-- Reads a length of time: numbers with their units, which add up. -/
def parse? (text : String) : Option Duration :=
  let chars := text.toList
  if text == "0" then some ⟨0, 0⟩
  else if chars.all Text.isBlank then none
  else parseParts (chars.length + 1) ⟨0, 0⟩ chars

/-- Every unit that is there, the longest first. -/
def format (d : Duration) : String :=
  let plural (n : Nat) (name : String) : List String :=
    if n = 0 then [] else [Number.natText n ++ name ++ (if n = 1 then "" else "s")]
  let short (n : Nat) (name : String) : List String :=
    if n = 0 then [] else [Number.natText n ++ name]
  let inYear := d.seconds % 31557600
  let inMonth := inYear % 2630016
  let inDay := inMonth % 86400
  let parts :=
    plural (d.seconds / 31557600) "year" ++ plural (inYear / 2630016) "month" ++
      plural (inMonth / 86400) "day" ++ short (inDay / 3600) "h" ++
      short (inDay % 3600 / 60) "m" ++ short (inDay % 60) "s" ++
      short (d.nanos / 1000000) "ms" ++ short (d.nanos / 1000 % 1000) "us" ++
      short (d.nanos % 1000) "ns"
  if parts.isEmpty then "0s" else Text.join " " parts

end Duration
end ImageLock
