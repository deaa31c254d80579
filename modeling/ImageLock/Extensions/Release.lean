/-
Releases of extensions, and the choice of the best one.
-/
import ImageLock.Version.Constraint

namespace ImageLock

/-- How finished a release is, the most finished first. -/
inductive Stability where
  | stable
  | beta
  | alpha
  | devel
deriving DecidableEq, Repr

namespace Stability

def name : Stability → String
  | .stable => "stable"
  | .beta => "beta"
  | .alpha => "alpha"
  | .devel => "devel"

def all : List Stability := [.stable, .beta, .alpha, .devel]

def ofName? (name : String) : Option Stability := all.find? fun s => s.name == name

def rank : Stability → Nat
  | .stable => 0
  | .beta => 1
  | .alpha => 2
  | .devel => 3

/-- At least as finished as `least`. -/
def meets (s least : Stability) : Bool := s.rank ≤ least.rank

end Stability

structure Release where
  version : String
  stability : Stability
deriving DecidableEq, Repr

namespace Release

/-- A release that qualifies, with its version. -/
def qualified? (constraint : Option Constraint) (least : Stability) (r : Release) :
    Option (Version × Release) := do
  if !r.stability.meets least then none
  else
    let version ← Version.ofRelease? r.version
    if constraint.all fun c => c.admits version.core then return (version, r) else none

/-- The last of the highest versions. -/
def highest : List (Version × Release) → Option (Version × Release)
  | [] => none
  | first :: rest =>
      some (rest.foldl (fun best next =>
        if next.1.compare best.1 = .lt then best else next) first)

/-- The constraint that a text states; an open one states nothing. -/
def constraint? (text : String) : Option (Option Constraint) :=
  if text.isEmpty || text == "*" then some none else (Constraint.parse? text).map some

/-- The version of the best release under a constraint, if there is one. No
answer at all means that the constraint cannot be read. -/
def select (releases : List Release) (constraint : String) (least : Stability) :
    Option (Option String) := do
  let constraint ← constraint? constraint
  return (highest (releases.filterMap (qualified? constraint least))).map fun best =>
    best.2.version

/-! The document that lists the releases of an extension. -/

/-- The content of an element with text only, which is not empty, and the text
behind it. -/
def takeElement (opening closing : List Char) (text : List Char) :
    Option (List Char × List Char) := do
  let rest ← Text.dropLeading opening text
  let content := rest.takeWhile (· != '<')
  if content.isEmpty then none
  else return (content, ← Text.dropLeading closing (rest.drop content.length))

/-- A version and a stability inside an entry. -/
def takeEntry (text : List Char) : Option (List Char × List Char × List Char) := do
  let rest ← Text.dropLeading "<r>".toList text
  let (version, rest) ←
    takeElement "<v>".toList "</v>".toList (rest.dropWhile Text.isBlank)
  let (stability, rest) ←
    takeElement "<s>".toList "</s>".toList (rest.dropWhile Text.isBlank)
  return (version, stability, rest)

/-- Entries without overlap. `skip` counts the characters of an entry still to
pass. -/
def entries : (skip : Nat) → List Char → List (List Char × List Char)
  | _, [] => []
  | skip + 1, _ :: rest => entries skip rest
  | 0, c :: rest =>
      match takeEntry (c :: rest) with
      | some (version, stability, after) =>
          (version, stability) :: entries (rest.length - after.length) rest
      | none => entries 0 rest

def ofEntry? (entry : List Char × List Char) : Option Release := do
  let stability ← Stability.ofName? (String.ofList (Text.trimChars entry.2))
  return ⟨String.ofList (Text.trimChars entry.1), stability⟩

/-- The releases that a document lists; entries of an unknown stability do not
count. -/
def parseAll (document : String) : List Release :=
  (entries 0 document.toList).filterMap ofEntry?

end Release
end ImageLock
