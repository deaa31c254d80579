/-
Writing numbers: the fewest decimal digits that read back as the same
number, and the layouts in which they are written.
-/
import ImageLock.Number.Binary64

namespace ImageLock.Number

def digitChar (n : Nat) : Char := Char.ofNat (0x30 + n % 10)

def natDigits (n : Nat) : List Char :=
  if _h : n < 10 then [digitChar n] else natDigits (n / 10) ++ [digitChar n]
termination_by n

def natText (n : Nat) : String := String.ofList (natDigits n)

def intText (i : Int) : String :=
  if i < 0 then "-" ++ natText i.natAbs else natText i.natAbs

/-- The integer part of `significand · 2 ^ exponent / 10 ^ power`. -/
def floorAt (significand : Nat) (exponent power : Int) : Nat :=
  let up (base : Nat) (e : Int) : Nat := if 0 ≤ e then Nat.pow base e.toNat else 1
  (significand * up 2 exponent * up 10 (-power)) / (up 2 (-exponent) * up 10 power)

/-- Number of decimal digits before the point, zero or less for numbers below
one: the least `k` with `significand · 2 ^ exponent < 10 ^ k`. `k` starts from
an estimate that is at most one too small. -/
def magnitude (significand : Nat) (exponent : Int) : Int :=
  let estimate := ((significand.log2 : Int) + exponent) * 30103 / 100000
  let rec settle : Nat → Int → Int
    | 0, k => k
    | fuel + 1, k => if floorAt significand exponent k = 0 then k else settle fuel (k + 1)
  settle 4 (estimate - 1)

/-- The candidate with `count` digits: of the two neighbours on that decimal
grid those that read back, of two the nearer, of two equally near the even. -/
def candidate? (significand : Nat) (exponent : Int) (count : Nat) : Option (Nat × Int) :=
  let power := magnitude significand exponent - count
  let low := floorAt significand exponent power
  let reads (digits : Nat) : Bool :=
    Binary64.ofDecimal false digits power == .finite false significand exponent
  match reads low, reads (low + 1) with
  | true, false => some (low, power)
  | false, true => some (low + 1, power)
  | false, false => none
  | true, true =>
      let twice := floorAt (2 * significand) exponent power
      let above := twice % 2 = 1
      let exact := floorAt (2 * significand) exponent (power - 20) = twice * Nat.pow 10 20
      if above && exact then
        if low % 2 = 0 then some (low, power) else some (low + 1, power)
      else if above then some (low + 1, power) else some (low, power)

def dropZeros : Nat → Nat → Int → Nat × Int
  | 0, digits, power => (digits, power)
  | fuel + 1, digits, power =>
      if digits % 10 = 0 then dropZeros fuel (digits / 10) (power + 1) else (digits, power)

/-- The shortest decimal for a positive number, as digits and a power of ten. -/
def shortest (significand : Nat) (exponent : Int) : Nat × Int :=
  let rec search : Nat → Nat → Nat × Int
    | 0, count => (floorAt significand exponent (magnitude significand exponent - count),
        magnitude significand exponent - count)
    | fuel + 1, count =>
        match candidate? significand exponent count with
        | some found => found
        | none => search fuel (count + 1)
  let (digits, power) := search 17 1
  dropZeros 20 digits power

/-- Digits with a point, and zeros as far as the point is away from them. -/
def positional (digits : Nat) (power : Int) (oneDecimal : Bool) : List Char :=
  let shown := natDigits digits
  if 0 ≤ power then
    shown ++ List.replicate power.toNat '0' ++ (if oneDecimal then ['.', '0'] else [])
  else
    let places := (-power).toNat
    let whole := shown.length - places
    let lead := if whole = 0 then ['0'] else shown.take whole
    lead ++ '.' :: List.replicate (places - shown.length) '0' ++ shown.drop whole

/-- One digit before the point, and an exponent. Whether an exponent that is
not negative has a sign, `signed` says. -/
def scientific (digits : Nat) (power : Int) (signed : Bool) : List Char :=
  let shown := natDigits digits
  let exponent : Int := power + shown.length - 1
  let sign := if exponent < 0 then ['-'] else if signed then ['+'] else []
  (match shown with
    | first :: [] => [first]
    | first :: rest => first :: '.' :: rest
    | [] => []) ++ 'e' :: sign ++ natDigits exponent.natAbs

/-- The layout of numbers in documents: positional, with at least one decimal,
from `1e-5` up to `1e16`; with an exponent elsewhere. Only finite numbers have
a text. -/
def documentText? (signed : Bool) : Binary64 → Option String
  | .finite negative 0 _ => some (if negative then "-0.0" else "0.0")
  | .finite negative significand exponent =>
      let (digits, power) := shortest significand exponent
      let places := power + (natDigits digits).length
      let body :=
        if -5 < places && places ≤ 16 then positional digits power true
        else scientific digits power signed
      some (String.ofList (if negative then '-' :: body else body))
  | _ => none

/-- The layout of a number that stands for a version: never an exponent, and
an integer is written out with one decimal. -/
def versionText : Binary64 → String
  | .notANumber => "NaN"
  | .infinite negative => if negative then "-inf" else "inf"
  | .finite negative significand exponent =>
      let body := match Binary64.integral? significand exponent with
        | some n => natDigits n ++ ['.', '0']
        | none =>
            let (digits, power) := shortest significand exponent
            positional digits power false
      String.ofList (if negative then '-' :: body else body)

end ImageLock.Number
