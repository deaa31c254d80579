/-
Reading JSON from bytes: values, and values that are passed over. A value that
is passed over need only be well formed; it may nest as deep as it likes and
spell what is not a text.
-/
import ImageLock.Document.Json
import ImageLock.Number.Numeral
import ImageLock.Text.Utf8

namespace ImageLock.JsonReader

abbrev Bytes := List UInt8

def isSpace (b : UInt8) : Bool := b == 0x20 || b == 0x0A || b == 0x0D || b == 0x09

def skipSpace (text : Bytes) : Bytes := text.dropWhile isSpace

def byte (c : Char) : UInt8 := UInt8.ofNat c.toNat

/-- Passes one mark after spaces. -/
def skipMark (c : Char) (text : Bytes) : Option Bytes :=
  match skipSpace text with
  | b :: rest => if b == byte c then some rest else none
  | [] => none

def atMark (c : Char) (text : Bytes) : Bool := (skipSpace text).head? == some (byte c)

def skipWord (word : String) (text : Bytes) : Option Bytes :=
  let bytes := word.toUTF8.toList
  if bytes.isPrefixOf text then some (text.drop bytes.length) else none

/-! Numbers. -/

def isDigit (b : UInt8) : Bool := 0x30 ≤ b && b ≤ 0x39

def takeDigits (text : Bytes) : Option (Bytes × Bytes) :=
  let digits := text.takeWhile isDigit
  if digits.isEmpty then none else some (digits, text.drop digits.length)

/-- Digits without zeros in front. -/
def takeWhole (text : Bytes) : Option (Bytes × Bytes) := do
  let (digits, rest) ← takeDigits text
  if digits.head? == some 0x30 && 1 < digits.length then none else return (digits, rest)

def takeFraction (text : Bytes) : Option (Bytes × Bytes) :=
  match text with
  | 0x2E :: rest => (takeDigits rest).map fun (digits, rest) => (0x2E :: digits, rest)
  | rest => some ([], rest)

def takeExponent (text : Bytes) : Option (Bytes × Bytes) :=
  match text with
  | e :: rest =>
      if e == 0x65 || e == 0x45 then
        let (sign, rest) : Bytes × Bytes := match rest with
          | 0x2B :: rest => ([], rest)
          | 0x2D :: rest => ([0x2D], rest)
          | rest => ([], rest)
        (takeDigits rest).map fun (digits, rest) => (0x65 :: sign ++ digits, rest)
      else some ([], text)
  | [] => some ([], [])

def chars (bytes : Bytes) : List Char := bytes.map fun b => Char.ofNat b.toNat

/-- The text of a number, and whether it is an integer. -/
def takeNumber (text : Bytes) : Option (List Char × Bool × Bytes) := do
  let (sign, rest) : Bytes × Bytes := match text with
    | 0x2D :: rest => ([0x2D], rest)
    | rest => ([], rest)
  let (whole, rest) ← takeWhole rest
  let (fraction, rest) ← takeFraction rest
  let (exponent, rest) ← takeExponent rest
  return (chars (sign ++ whole ++ fraction ++ exponent), fraction.isEmpty && exponent.isEmpty,
    rest)

/-- Integers of 64 bits, and other numbers that are not too large. -/
def numberValue? (text : List Char) (isInteger : Bool) : Option Json :=
  let integer? : Option Int :=
    match text with
    | '-' :: digits => (Number.natIn? 10 digits).map fun n => -(n : Int)
    | digits => (Number.natIn? 10 digits).map fun n => (n : Int)
  let isWord (i : Int) : Bool := -0x8000000000000000 ≤ i && i < 0x10000000000000000
  match integer?.filter fun i => isInteger && isWord i with
  | some i => some (.int i)
  | none => (Number.finite? text).map .real

/-! Strings. -/

def hexValue? (b : UInt8) : Option Nat := Number.digitIn? 16 (Char.ofNat b.toNat)

def takeHex4 : Bytes → Option (Nat × Bytes)
  | a :: b :: c :: d :: rest => do
      let high := (← hexValue? a) * 16 + (← hexValue? b)
      let low := (← hexValue? c) * 16 + (← hexValue? d)
      return (high * 256 + low, rest)
  | _ => none

def shortEscape? (b : UInt8) : Option UInt8 :=
  match Char.ofNat b.toNat with
  | '"' => some 0x22
  | '\\' => some 0x5C
  | '/' => some 0x2F
  | 'b' => some 0x08
  | 'f' => some 0x0C
  | 'n' => some 0x0A
  | 'r' => some 0x0D
  | 't' => some 0x09
  | _ => none

def utf8 (n : Nat) : Bytes := (String.ofList [Char.ofNat n]).toUTF8.toList

/-- What follows `\u`: one unit, or two that make a character. -/
def takeUnicode (text : Bytes) : Option (Bytes × Bytes) := do
  let (unit, rest) ← takeHex4 text
  if 0xD800 ≤ unit && unit < 0xDC00 then
    match rest with
    | 0x5C :: 0x75 :: rest =>
        let (low, rest) ← takeHex4 rest
        if 0xDC00 ≤ low && low < 0xE000 then
          return (utf8 (0x10000 + (unit - 0xD800) * 0x400 + (low - 0xDC00)), rest)
        else none
    | _ => none
  else if 0xDC00 ≤ unit && unit < 0xE000 then none
  else return (utf8 unit, rest)

/-- The bytes up to the closing quote; without `read` escapes are only checked
for their form. -/
def takeString (read : Bool) : Nat → Bytes → Bytes → Option (Bytes × Bytes)
  | 0, _, _ => none
  | fuel + 1, text, taken =>
      match text with
      | [] => none
      | 0x22 :: rest => some (taken.reverse, rest)
      | 0x5C :: 0x75 :: rest =>
          if read then do
            let (bytes, rest) ← takeUnicode rest
            takeString read fuel rest (bytes.reverse ++ taken)
          else do
            let (_, rest) ← takeHex4 rest
            takeString read fuel rest taken
      | 0x5C :: b :: rest => do takeString read fuel rest ((← shortEscape? b) :: taken)
      | b :: rest => if b < 0x20 || b == 0x5C then none else takeString read fuel rest (b :: taken)

/-- A string with its quotes. -/
def takeText (text : Bytes) : Option (String × Bytes) := do
  let rest ← skipMark '"' text
  let (bytes, rest) ← takeString true (rest.length + 1) rest []
  return (← Text.ofBytes? ⟨bytes.toArray⟩, rest)

def skipText (text : Bytes) : Option Bytes := do
  let rest ← skipMark '"' text
  return (← takeString false (rest.length + 1) rest []).2

/-! Values. `fuel` bounds the calls and is at least the number of bytes. -/

mutual

def skipValue : Nat → Bytes → Option Bytes
  | 0, _ => none
  | fuel + 1, text =>
      match skipSpace text with
      | [] => none
      | b :: rest =>
          match Char.ofNat b.toNat with
          | 'n' => skipWord "ull" rest
          | 't' => skipWord "rue" rest
          | 'f' => skipWord "alse" rest
          | '"' => skipText (b :: rest)
          | '[' => if atMark ']' rest then skipMark ']' rest else skipItems fuel rest
          | '\x7b' => if atMark '\x7d' rest then skipMark '\x7d' rest else skipFields fuel rest
          | _ => (takeNumber (b :: rest)).map (·.2.2)

def skipItems : Nat → Bytes → Option Bytes
  | 0, _ => none
  | fuel + 1, text => do
      let rest ← skipValue fuel text
      if atMark ',' rest then skipItems fuel (← skipMark ',' rest) else skipMark ']' rest

def skipFields : Nat → Bytes → Option Bytes
  | 0, _ => none
  | fuel + 1, text => do
      let rest ← skipValue fuel (← skipMark ':' (← skipText text))
      if atMark ',' rest then skipFields fuel (← skipMark ',' rest) else skipMark '\x7d' rest

end

mutual

/-- A value whose collections nest at most `depth` deep. -/
def takeValue : Nat → Nat → Bytes → Option (Json × Bytes)
  | 0, _, _ => none
  | fuel + 1, depth, text =>
      match skipSpace text with
      | [] => none
      | b :: rest =>
          match Char.ofNat b.toNat with
          | 'n' => (skipWord "ull" rest).map fun rest => (.null, rest)
          | 't' => (skipWord "rue" rest).map fun rest => (.bool true, rest)
          | 'f' => (skipWord "alse" rest).map fun rest => (.bool false, rest)
          | '"' => (takeText (b :: rest)).map fun (s, rest) => (.text s, rest)
          | '[' =>
              if depth = 0 then none
              else if atMark ']' rest then (skipMark ']' rest).map fun rest => (.list [], rest)
              else (takeItems fuel (depth - 1) rest).map fun (items, rest) => (.list items, rest)
          | '\x7b' =>
              if depth = 0 then none
              else if atMark '\x7d' rest then
                (skipMark '\x7d' rest).map fun rest => (.object [], rest)
              else (takeFields fuel (depth - 1) rest).map fun (fields, rest) =>
                (.object fields, rest)
          | _ => do
              let (number, isInteger, rest) ← takeNumber (b :: rest)
              return (← numberValue? number isInteger, rest)

def takeItems : Nat → Nat → Bytes → Option (List Json × Bytes)
  | 0, _, _ => none
  | fuel + 1, depth, text => do
      let (item, rest) ← takeValue fuel depth text
      if atMark ',' rest then
        let (items, rest) ← takeItems fuel depth (← skipMark ',' rest)
        return (item :: items, rest)
      else return ([item], ← skipMark ']' rest)

def takeFields : Nat → Nat → Bytes → Option (List (String × Json) × Bytes)
  | 0, _, _ => none
  | fuel + 1, depth, text => do
      let (name, rest) ← takeText text
      let (value, rest) ← takeValue fuel depth (← skipMark ':' rest)
      if atMark ',' rest then
        let (fields, rest) ← takeFields fuel depth (← skipMark ',' rest)
        return ((name, value) :: fields, rest)
      else return ([(name, value)], ← skipMark '\x7d' rest)

end

/-- Collections nest at most this deep. -/
def depthLimit : Nat := 127

/-- The one field that is wanted of an object; the others are passed over, and
it may stand there once. -/
def takeFieldOf (name : String) : Nat → Option Json → Bytes → Option (Option Json × Bytes)
  | 0, _, _ => none
  | fuel + 1, found, text => do
      let (key, rest) ← takeText text
      let rest ← skipMark ':' rest
      let (found, rest) ←
        if key == name then
          if found.isSome then none
          else (takeValue (rest.length + 1) (depthLimit - 1) rest).map fun (value, rest) =>
            (some value, rest)
        else (skipValue (rest.length + 1) rest).map fun rest => (found, rest)
      if atMark ',' rest then takeFieldOf name fuel found (← skipMark ',' rest)
      else return (found, ← skipMark '\x7d' rest)

/-- The one value of a list, if it is not empty. -/
def takeOnly (text : Bytes) : Option (Option Json × Bytes) :=
  if atMark ']' text then (skipMark ']' text).map fun rest => (none, rest)
  else do
    let (value, rest) ← takeValue (text.length + 1) (depthLimit - 1) text
    return (some value, ← skipMark ']' rest)

/-- Reads a document that is a record with one field that counts, written as
an object, or as a list of its fields. -/
def fieldOf? (name : String) (document : ByteArray) : Option (Option Json) := do
  let text := skipSpace document.toList
  let (found, rest) ←
    match text with
    | 0x5B :: rest => takeOnly rest
    | 0x7B :: rest =>
        if atMark '\x7d' rest then (skipMark '\x7d' rest).map fun rest => (none, rest)
        else takeFieldOf name (rest.length + 1) none rest
    | _ => none
  if (skipSpace rest).isEmpty then return found else none

end ImageLock.JsonReader
