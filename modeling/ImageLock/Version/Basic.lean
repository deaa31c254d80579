/-
Versions: three numbers, and what stands before a release is finished.
-/
import ImageLock.Text.Cut

namespace ImageLock

/-- The three numbers of a release. -/
structure Core where
  major : Nat
  minor : Nat
  patch : Nat
deriving DecidableEq, Repr

namespace Core

def compare (a b : Core) : Ordering :=
  ((Ord.compare a.major b.major).then (Ord.compare a.minor b.minor)).then
    (Ord.compare a.patch b.patch)

end Core

/-- The identifiers between the dots of a prerelease. A finished release has
none. -/
abbrev Prerelease := List (List Char)

namespace Prerelease

def isIdentifierChar (c : Char) : Bool := Text.isLetter c || Text.isDigit c || c == '-'

def isNumeric (identifier : List Char) : Bool := identifier.all Text.isDigit

/-- Identifiers are not empty, and numbers have no zeros in front. -/
def isIdentifier (identifier : List Char) : Bool :=
  !identifier.isEmpty && identifier.all isIdentifierChar &&
    !(isNumeric identifier && 1 < identifier.length && identifier.head? == some '0')

def parse? (text : List Char) : Option Prerelease :=
  let identifiers := Text.splitWhere (· == '.') text
  if identifiers.all isIdentifier then some identifiers else none

def compareChars : List Char → List Char → Ordering
  | [], [] => .eq
  | [], _ :: _ => .lt
  | _ :: _, [] => .gt
  | a :: as, b :: bs => (Ord.compare a.toNat b.toNat).then (compareChars as bs)

/-- Numbers come before words; numbers are compared by value, words letter by
letter. -/
def compareIdentifiers (a b : List Char) : Ordering :=
  match isNumeric a, isNumeric b with
  | false, true => .gt
  | true, false => .lt
  | false, false => compareChars a b
  | true, true => (Ord.compare a.length b.length).then (compareChars a b)

def compareLists : Prerelease → Prerelease → Ordering
  | [], [] => .eq
  | [], _ :: _ => .lt
  | _ :: _, [] => .gt
  | a :: as, b :: bs => (compareIdentifiers a b).then (compareLists as bs)

/-- A finished release comes after its prereleases. -/
def compare (a b : Prerelease) : Ordering :=
  match a.isEmpty, b.isEmpty with
  | true, true => .eq
  | true, false => .gt
  | false, true => .lt
  | false, false => compareLists a b

end Prerelease

structure Version where
  core : Core
  prerelease : Prerelease
deriving DecidableEq, Repr

namespace Version

/-- Precedence. -/
def compare (a b : Version) : Ordering :=
  (a.core.compare b.core).then (Prerelease.compare a.prerelease b.prerelease)

/-- Numbers of versions have 64 bits. -/
def numberBound : Nat := 0x10000000000000000

/-- A number, perhaps after a plus sign. -/
def number? (text : List Char) : Option Nat :=
  let digits := match text with
    | '+' :: rest => rest
    | rest => rest
  if digits.isEmpty || !digits.all Text.isDigit then none
  else
    let n := digits.foldl (fun n d => n * 10 + (d.toNat - 0x30)) 0
    if n < numberBound then some n else none

/-- One to three numbers; those that are missing are zero. -/
def core? (text : List Char) : Option Core := do
  match Text.splitWhere (· == '.') text with
  | [a] => return ⟨← number? a, 0, 0⟩
  | [a, b] => return ⟨← number? a, ← number? b, 0⟩
  | [a, b, c] => return ⟨← number? a, ← number? b, ← number? c⟩
  | _ => none

/-- A version as extensions are numbered: what follows the numbers begins with
a letter, and dots and dashes before it do not count. -/
def ofRelease? (text : String) : Option Version := do
  let numbers := text.toList.takeWhile fun c => !Text.isLetter c
  let rest := text.toList.drop numbers.length
  let core ← core? (Text.dropEndWhile (fun c => c == '.' || c == '-') numbers)
  if rest.isEmpty then return ⟨core, []⟩
  else return ⟨core, ← Prerelease.parse? rest⟩

end Version
end ImageLock
