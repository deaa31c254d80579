/-
Package versions that the tool of Debian lists.
-/
import ImageLock.Packages.Basic

namespace ImageLock.Apt

def commands (names : List String) : List String :=
  ["apt-get update 1>/dev/null 2>&1", "apt-cache madison " ++ Text.join " " names]

def bar : List Char := " | ".toList

/-- The first two of at least three columns. -/
def entry? (line : List Char) : Option (String × String) := do
  let (name, rest) ← Text.cutAtText bar line
  let (version, _) ← Text.cutAtText bar rest
  return (String.ofList (Text.trimChars name), String.ofList (Text.trimChars version))

/-- The first line of a package counts. -/
def addListed (resolved : VersionMap) (out : String) : VersionMap :=
  ((Text.lineChars out.toList).filterMap entry?).foldl
    (fun resolved (name, version) => resolved.add name version) resolved

def resolve (backend : Backend) (image : String) (packages : VersionMap) :
    Act PackageError VersionMap := do
  let pinned := Packages.pinned packages
  let names := Packages.openNames packages
  if names.isEmpty then return pinned
  let out ← (Act.ofReply (backend.run image (commands names))).mapError (.access image)
  let resolved := addListed pinned out
  Act.ofExcept (Packages.checkComplete packages resolved)
  return resolved

end ImageLock.Apt
