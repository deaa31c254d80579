/-
Package versions that the tool of Alpine tells with its descriptions.
-/
import ImageLock.Packages.Basic
import ImageLock.Text.Digits

namespace ImageLock.Apk

def commands (names : List String) : List String :=
  ["apk --no-cache info --description " ++ Text.join " " names]

/-- Longer names first, so that no name is taken for the start of another;
names of one length in alphabetical order. -/
def comesBefore (a b : String) : Bool :=
  let m := Text.byteLength a.toList
  let n := Text.byteLength b.toList
  n < m || (m == n && a ≤ b)

def ordered (names : List String) : List String := names.mergeSort comesBefore

/-- Reads `-version description:` after a name: a version begins with a digit
and ends at the first blank. -/
def versionAfter? (text : List Char) : Option (List Char) :=
  match text with
  | '-' :: rest =>
      let version := rest.takeWhile fun c => c != ' ' && c != '\n'
      if (version.head?.any Text.isDecimalDigit) &&
          " description:".toList.isPrefixOf (rest.drop version.length) then some version
      else none
  | _ => none

/-- The package that a line starts with, and its version. -/
def header? (names : List String) (text : List Char) : Option (String × List Char) :=
  names.findSome? fun name => do
    let rest ← Text.dropLeading name.toList text
    return (name, ← versionAfter? rest)

/-- Finds headers at the starts of lines. `skip` counts the characters of a
header still to pass. -/
def headers (names : List String) : (skip : Nat) → (atStart : Bool) → List Char →
    List (String × String)
  | _, _, [] => []
  | skip + 1, _, _ :: rest => headers names skip false rest
  | 0, atStart, c :: rest =>
      match if atStart then header? names (c :: rest) else none with
      | some (name, version) =>
          let size := name.toList.length + 1 + version.length + " description:".length
          (name, String.ofList version) :: headers names (size - 1) false rest
      | none => headers names 0 (c == '\n') rest

/-- The last header of a package counts. -/
def addDescribed (resolved : VersionMap) (names : List String) (out : String) : VersionMap :=
  (headers (ordered names) 0 true out.toList).foldl
    (fun resolved (name, version) => resolved.overwrite name version) resolved

/-- The tool fails with code 1 if a package is unknown; what it tells of the
others counts all the same. -/
def described (image : String) (result : Except AccessError String) :
    Except PackageError String :=
  match result with
  | .ok out => .ok out
  | .error (.exitStatus _ _ (some 1) stdout _) => .ok stdout
  | .error error => .error (.access image error)

def resolve (backend : Backend) (image : String) (packages : VersionMap) :
    Act PackageError VersionMap := do
  let pinned := Packages.pinned packages
  let names := Packages.openNames packages
  if names.isEmpty then return pinned
  let result ← Act.attempt (Act.ofReply (backend.run image (commands names)))
  let out ← Act.ofExcept (described image result)
  let resolved := addDescribed pinned names out
  Act.ofExcept (Packages.checkComplete packages resolved)
  return resolved

end ImageLock.Apk
