/-
Indexes of package repositories: the newest version of every package.
-/
import ImageLock.Names
import ImageLock.Text.Cut

namespace ImageLock

/-- A repository and one of its suites. -/
structure Repository where
  url : String
  suite : String
deriving DecidableEq, Repr

namespace Repository

/-- Slashes at the end of an address do not count. -/
def make (url suite : String) : Repository :=
  ⟨String.ofList (Text.dropEndWhile (· == '/') url.toList), suite⟩

def indexUrl (r : Repository) (arch : String) : String :=
  r.url ++ "/dists/" ++ r.suite ++ "/main/binary-" ++ arch ++ "/Packages.gz"

end Repository

namespace PackageIndex

/-- The last name and the last version that the lines of a paragraph give. -/
def readLines (lines : List (List Char)) : Option String × Option String :=
  lines.foldl (fun (name, version) line =>
    match Text.dropLeading "Package:".toList line with
    | some value => (some (String.ofList (Text.trimChars value)), version)
    | none =>
        match Text.dropLeading "Version:".toList line with
        | some value => (name, some (String.ofList (Text.trimChars value)))
        | none => (name, version)) (none, none)

def paragraphs (content : String) : List (List Char) :=
  Text.piecesBetween ['\n', '\n'] content.toList

/-- The package and its version that a paragraph tells. -/
def entry? (paragraph : List Char) : Option (String × String) :=
  match readLines (Text.lineChars paragraph) with
  | (some name, some version) => some (name, version)
  | _ => none

/-- The first paragraph of a package counts. -/
def addFirst (index : Names String) (entry : String × String) : Names String :=
  if index.has entry.1 then index else index.insert entry.1 entry.2

def parse (content : String) : Names String :=
  ((paragraphs content).filterMap entry?).foldl addFirst Names.empty

/-- Adds what another index has beyond the first. -/
def addMissing (index other : Names String) : Names String :=
  other.entries.foldl addFirst index

end PackageIndex
end ImageLock
