/-
Constraints as package lists write them: alternatives between double bars,
each a row of comparators.
-/
import ImageLock.Version.Requirement
import ImageLock.Number.Decimal

namespace ImageLock

/-- One of the requirements must be met. -/
abbrev Constraint := List Requirement

namespace Constraint

def isOperatorChar (c : Char) : Bool := "<>=~^!".toList.contains c

/-- Joins signs that stand alone with the word after them. -/
def joinOperators : List (List Char) → List (List Char)
  | [] => []
  | word :: words =>
      match joinOperators words with
      | [] => [word]
      | next :: rest =>
          if word.all isOperatorChar then (word ++ next) :: rest else word :: next :: rest

/-- A tilde before two numbers bounds the first of them. The bound is a number
of 64 bits. -/
def expandTilde (word : List Char) : List Char :=
  match word with
  | '~' :: version =>
      if version.head?.any fun c => c == '>' || c == '=' then word
      else match Text.splitWhere (· == '.') version with
        | [first, minor] =>
            match Version.number? first with
            | some major =>
                ">=".toList ++ Number.natDigits major ++ '.' :: minor ++ ".0, <".toList ++
                  Number.natDigits ((major + 1) % Version.numberBound) ++ ".0.0".toList
            | none => word
        | _ => word
  | _ => word

def isSeparator (c : Char) : Bool := c == ' ' || c == ','

/-- The comparators of an alternative. -/
def words (alternative : List Char) : List (List Char) :=
  joinOperators ((Text.splitWhere isSeparator alternative).filter fun word => !word.isEmpty)

def joinWords : List (List Char) → List Char
  | [] => []
  | [word] => word
  | word :: rest => word ++ ", ".toList ++ joinWords rest

def alternatives (text : String) : List (List Char) :=
  Text.piecesBetween "||".toList text.toList

def parse? (text : String) : Option Constraint :=
  (alternatives text).mapM fun alternative =>
    Requirement.parse? (joinWords ((words alternative).map expandTilde))

def admits (c : Constraint) (v : Core) : Bool := c.any fun r => r.admits v

/-- A version that stands for itself. -/
def isExact (text : String) : Bool :=
  let chars := text.toList
  chars.head?.any Text.isDigit &&
    !chars.any (fun c => c == '*' || c == ' ' || c == ',' || c == '|') &&
    !(".x".toList.reverse.isPrefixOf chars.reverse)

end Constraint
end ImageLock
