/-
The numbers of the binary64 format as exact data, and reading a decimal
numeral into it: to the nearest number, a tie to the even significand.
-/
namespace ImageLock.Number

/-- A finite number is `significand · 2 ^ exponent`. The functions of this
module keep the significand below `2 ^ 53`, and at least `2 ^ 52` unless the
exponent is the least one, -1074. -/
inductive Binary64 where
  | finite (negative : Bool) (significand : Nat) (exponent : Int)
  | infinite (negative : Bool)
  | notANumber
deriving DecidableEq, Repr

namespace Binary64

def leastExponent : Int := -1074

/-- `2 ^ 53`. -/
def significandBound : Nat := 0x20000000000000

/-- The first exponent that no finite number has. -/
def tooLarge : Int := 972

/-- The two zeros are one number, and not-a-number equals itself. -/
def same : Binary64 → Binary64 → Bool
  | finite _ 0 _, finite _ 0 _ => true
  | x, y => x == y

def isFinite : Binary64 → Bool
  | finite .. => true
  | _ => false

/-- `a / b` to the nearest integer, a tie to the even one. -/
def roundRatio (a b : Nat) : Nat :=
  let q := a / b
  let r := a % b
  if 2 * r < b then q
  else if b < 2 * r then q + 1
  else if q % 2 = 0 then q else q + 1

/-- `a / b` in units of `2 ^ exponent`. -/
def scaled (a b : Nat) (exponent : Int) : Nat :=
  if 0 ≤ exponent then roundRatio a (b * Nat.pow 2 exponent.toNat)
  else roundRatio (a * Nat.pow 2 (-exponent).toNat) b

/-- The number nearest to the positive quotient `a / b`. -/
def ofRatio (negative : Bool) (a b : Nat) : Binary64 :=
  let guess : Int := (a.log2 : Int) - (b.log2 : Int) - 53
  let exponent := max guess leastExponent
  let first := scaled a b exponent
  let (significand, exponent) :=
    if first < significandBound then (first, exponent)
    else
      let exponent := exponent + 1
      let next := scaled a b exponent
      if next < significandBound then (next, exponent) else (next / 2, exponent + 1)
  if tooLarge ≤ exponent then infinite negative
  else finite negative significand exponent

/-- `digits · 10 ^ power`. A numeral beyond every finite number, or below half
of the least one, is settled by its number of digits. -/
def ofDecimal (negative : Bool) (digits : Nat) (power : Int) : Binary64 :=
  if digits = 0 then finite negative 0 leastExponent
  else
    let size : Int := (digits.log2 : Int) * 30103 / 100000 + power
    if 320 < size then infinite negative
    else if size < -400 then finite negative 0 leastExponent
    else if 0 ≤ power then ofRatio negative (digits * Nat.pow 10 power.toNat) 1
    else ofRatio negative digits (Nat.pow 10 (-power).toNat)

def ofNat (n : Nat) : Binary64 := ofDecimal false n 0

def ofInt (i : Int) : Binary64 := ofDecimal (i < 0) i.natAbs 0

/-- The value of a finite number that is an integer, without its sign. -/
def integral? (significand : Nat) (exponent : Int) : Option Nat :=
  if 0 ≤ exponent then some (significand * Nat.pow 2 exponent.toNat)
  else
    let unit := Nat.pow 2 (-exponent).toNat
    if significand % unit = 0 then some (significand / unit) else none

end Binary64
end ImageLock.Number
