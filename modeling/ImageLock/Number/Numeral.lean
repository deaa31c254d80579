/-
Reading numerals.
-/
import ImageLock.Number.Binary64
import ImageLock.Text.Cut

namespace ImageLock.Number

def digitIn? (radix : Nat) (c : Char) : Option Nat :=
  let value? :=
    if Text.isDigit c then some (c.toNat - 0x30)
    else if 'a' ≤ c && c ≤ 'f' then some (c.toNat - 0x57)
    else if 'A' ≤ c && c ≤ 'F' then some (c.toNat - 0x37)
    else none
  value?.filter (· < radix)

def natIn? (radix : Nat) (digits : List Char) : Option Nat :=
  if digits.isEmpty then none
  else digits.foldl (fun n c => match n, digitIn? radix c with
    | some n, some d => some (n * radix + d)
    | _, _ => none) (some 0)

/-- Digits, a point and digits, and an exponent: the digits without the
point, how many stand after the point, and the exponent. -/
def decimalParts? (text : List Char) : Option (Nat × Nat × Int) := do
  let whole := text.takeWhile Text.isDigit
  let rest := text.drop whole.length
  let (places, rest) := match rest with
    | '.' :: rest => let places := rest.takeWhile Text.isDigit; (places, rest.drop places.length)
    | rest => ([], rest)
  let digits ← natIn? 10 (whole ++ places)
  match rest with
  | [] => return (digits, places.length, 0)
  | e :: rest =>
      if e != 'e' && e != 'E' then none
      else
        let exponent ← match rest with
          | '-' :: rest => (natIn? 10 rest).map fun n => - (n : Int)
          | '+' :: rest => (natIn? 10 rest).map fun n => (n : Int)
          | rest => (natIn? 10 rest).map fun n => (n : Int)
        return (digits, places.length, exponent)

/-- A decimal number that is not too large for the format. -/
def finite? (text : List Char) : Option Binary64 := do
  let (negative, body) := match text with
    | '-' :: rest => (true, rest)
    | '+' :: rest => (false, rest)
    | rest => (false, rest)
  let (digits, places, exponent) ← decimalParts? body
  match Binary64.ofDecimal negative digits (exponent - places) with
  | .finite s m e => some (.finite s m e)
  | _ => none

end ImageLock.Number
