/-
What an unquoted scalar denotes.
-/
import ImageLock.Document.Node
import ImageLock.Number.Numeral

namespace ImageLock.Yaml

def isNullWord (text : String) : Bool := ["null", "Null", "NULL", "~"].contains text

def boolWord? (text : String) : Option Bool :=
  if ["true", "True", "TRUE"].contains text then some true
  else if ["false", "False", "FALSE"].contains text then some false
  else none

/-- Digits after a leading zero, which are a text and not a number. -/
def isPaddedNumber (text : List Char) : Bool :=
  let digits := match text with
    | '-' :: rest | '+' :: rest => rest
    | rest => rest
  match digits with
  | '0' :: d :: rest => (d :: rest).all Text.isDigit
  | _ => false

/-- The digits behind a radix mark. -/
def radixDigits? : List Char → Option (Nat × List Char)
  | '0' :: 'x' :: rest => some (16, rest)
  | '0' :: 'o' :: rest => some (8, rest)
  | '0' :: 'b' :: rest => some (2, rest)
  | _ => none

/-- An integer, in decimal or behind a radix mark. -/
def integer? (text : List Char) : Option Int :=
  let unsigned? (digits : List Char) : Option Nat :=
    match radixDigits? digits with
    | some (radix, rest) => Number.natIn? radix rest
    | none => if isPaddedNumber digits then none else Number.natIn? 10 digits
  match text with
  | '-' :: rest => (unsigned? rest).map fun n => - (n : Int)
  | '+' :: rest => (unsigned? rest).map fun n => (n : Int)
  | rest => (unsigned? rest).map fun n => (n : Int)

def real? (text : List Char) : Option Number.Binary64 :=
  let word := String.ofList text
  let (unsigned, doubled) := match text with
    | '+' :: rest => (rest, rest.head?.any fun c => c == '+' || c == '-')
    | rest => (rest, false)
  if doubled then none
  else if [".inf", ".Inf", ".INF"].contains (String.ofList unsigned) then some (.infinite false)
  else if ["-.inf", "-.Inf", "-.INF"].contains word then some (.infinite true)
  else if [".nan", ".NaN", ".NAN"].contains word then some .notANumber
  else Number.finite? unsigned

/-- Integers of 64 bits, unsigned or signed, are values. -/
def isWord (n : Int) : Bool := -0x8000000000000000 ≤ n && n < 0x10000000000000000

/-- Integers of twice that size are read, but denote no value. -/
def isDoubleWord (n : Int) : Bool :=
  -0x80000000000000000000000000000000 ≤ n && n < 0x100000000000000000000000000000000

/-- The value of an unquoted scalar; `none` for an integer that has none. -/
def plainValue? (text : String) : Option Node :=
  let chars := text.toList
  let other : Node :=
    if isPaddedNumber chars then .text text
    else match real? chars with
      | some number => .real number
      | none => .text text
  if text.isEmpty || isNullWord text then some .null
  else match boolWord? text with
    | some b => some (.bool b)
    | none =>
        match integer? chars with
        | some n =>
            if isWord n then some (.int n)
            else if isDoubleWord n then none
            else some other
        | none => some other

end ImageLock.Yaml
