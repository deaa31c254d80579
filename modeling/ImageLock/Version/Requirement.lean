/-
Requirements on versions: comparators that must hold together.
-/
import ImageLock.Version.Basic

namespace ImageLock

inductive Operator where
  | exact
  | greater
  | greaterEq
  | less
  | lessEq
  | tilde
  | caret
deriving DecidableEq, Repr

/-- An operator and a version, whose later numbers may be missing. -/
structure Comparator where
  operator : Operator
  major : Nat
  minor : Option Nat
  patch : Option Nat
  prerelease : Prerelease
deriving DecidableEq, Repr

/-- All comparators must hold; none means any version. -/
abbrev Requirement := List Comparator

namespace Comparator

/-! Which finished releases meet a comparator. -/

def matchesExact (c : Comparator) (v : Core) : Bool :=
  v.major == c.major && c.minor.all (v.minor == ·) && c.patch.all (v.patch == ·) &&
    c.prerelease.isEmpty

def matchesGreater (c : Comparator) (v : Core) : Bool :=
  if v.major != c.major then c.major < v.major
  else match c.minor with
    | none => false
    | some minor =>
        if v.minor != minor then minor < v.minor
        else match c.patch with
          | none => false
          | some patch =>
              if v.patch != patch then patch < v.patch else !c.prerelease.isEmpty

def matchesLess (c : Comparator) (v : Core) : Bool :=
  if v.major != c.major then v.major < c.major
  else match c.minor with
    | none => false
    | some minor =>
        if v.minor != minor then v.minor < minor
        else match c.patch with
          | none => false
          | some patch => v.patch < patch

def matchesTilde (c : Comparator) (v : Core) : Bool :=
  v.major == c.major && c.minor.all (v.minor == ·) && c.patch.all (· ≤ v.patch)

/-- Changes right of the first number that is not zero are compatible. -/
def matchesCaret (c : Comparator) (v : Core) : Bool :=
  v.major == c.major &&
    match c.minor with
    | none => true
    | some minor =>
        match c.patch with
        | none => if 0 < c.major then minor ≤ v.minor else v.minor == minor
        | some patch =>
            if 0 < c.major then minor < v.minor || (v.minor == minor && patch ≤ v.patch)
            else if 0 < minor then v.minor == minor && patch ≤ v.patch
            else v.minor == minor && v.patch == patch

def admits (c : Comparator) (v : Core) : Bool :=
  match c.operator with
  | .exact => c.matchesExact v
  | .greater => c.matchesGreater v
  | .greaterEq => c.matchesExact v || c.matchesGreater v
  | .less => c.matchesLess v
  | .lessEq => c.matchesExact v || c.matchesLess v
  | .tilde => c.matchesTilde v
  | .caret => c.matchesCaret v

/-! Reading. -/

def takeOperator : List Char → Option Operator × List Char
  | '=' :: rest => (some .exact, rest)
  | '>' :: '=' :: rest => (some .greaterEq, rest)
  | '>' :: rest => (some .greater, rest)
  | '<' :: '=' :: rest => (some .lessEq, rest)
  | '<' :: rest => (some .less, rest)
  | '~' :: rest => (some .tilde, rest)
  | '^' :: rest => (some .caret, rest)
  | rest => (none, rest)

def dropSpaces (text : List Char) : List Char := text.dropWhile (· == ' ')

/-- A number without zeros in front. -/
def takeNumber (text : List Char) : Option (Nat × List Char) :=
  let digits := text.takeWhile Text.isDigit
  if 1 < digits.length && digits.head? == some '0' then none
  else (Version.number? digits).map fun n => (n, text.drop digits.length)

/-- The text behind a wildcard. -/
def afterWildcard? : List Char → Option (List Char)
  | '*' :: rest | 'x' :: rest | 'X' :: rest => some rest
  | _ => none

/-- A part of a version behind a dot. -/
inductive Part where
  | absent
  | wildcard
  | number (n : Nat)

def takePart : List Char → Option (Part × List Char)
  | '.' :: rest =>
      match afterWildcard? rest with
      | some rest => some (.wildcard, rest)
      | none => (takeNumber rest).map fun (n, rest) => (.number n, rest)
  | rest => some (.absent, rest)

/-- Identifiers between dots, as a prerelease or a build has them. -/
def takeIdentifiers (isValid : List Char → Bool) (text : List Char) :
    Option (Prerelease × List Char) :=
  let taken := text.takeWhile fun c => Prerelease.isIdentifierChar c || c == '.'
  let identifiers := Text.splitWhere (· == '.') taken
  if identifiers.all isValid then some (identifiers, text.drop taken.length) else none

def Part.number? : Part → Option Nat
  | .number n => some n
  | _ => none

/-- One comparator, and the text after it and its spaces. -/
def take (text : List Char) : Option (Comparator × List Char) := do
  let (operator, rest) := takeOperator text
  let (major, rest) ← takeNumber (dropSpaces rest)
  let (minor, rest) ← takePart rest
  let (patch, rest) ← takePart rest
  let hasWildcard ← match minor, patch with
    | .wildcard, .number _ => none
    | .wildcard, _ | _, .wildcard => some true
    | _, _ => some false
  let isFull := patch.number?.isSome
  let (prerelease, rest) ← match isFull, rest with
    | true, '-' :: rest => takeIdentifiers Prerelease.isIdentifier rest
    | _, rest => some ([], rest)
  let (_, rest) ← match isFull, rest with
    | true, '+' :: rest => takeIdentifiers (!·.isEmpty) rest
    | _, rest => some ([], rest)
  let operator := operator.getD (if hasWildcard then .exact else .caret)
  return (⟨operator, major, minor.number?, patch.number?, prerelease⟩, dropSpaces rest)

end Comparator

namespace Requirement

def admits (r : Requirement) (v : Core) : Bool := r.all fun c => c.admits v

/-- A requirement has at most this many comparators. -/
def sizeLimit : Nat := 32

/-- Comparators between commas. -/
def takeAll : Nat → List Char → Option Requirement
  | 0, _ => none
  | fuel + 1, text => do
      let (comparator, rest) ← Comparator.take text
      match rest with
      | [] => return [comparator]
      | ',' :: rest => return comparator :: (← takeAll fuel (Comparator.dropSpaces rest))
      | _ => none

/-- Reads comparators between commas, or a wildcard that stands alone. -/
def parse? (text : List Char) : Option Requirement :=
  let text := Comparator.dropSpaces text
  match Comparator.afterWildcard? text with
  | some rest => if (Comparator.dropSpaces rest).isEmpty then some [] else none
  | none => takeAll sizeLimit text

end Requirement
end ImageLock
