/-
The operating system of an image.
-/
import ImageLock.Decode
import ImageLock.Text.Cut
import ImageLock.Text.Utf8

namespace ImageLock

structure OsRelease where
  name : String
  versionName : String
  versionId : String
deriving DecidableEq, Repr

namespace OsRelease

def empty : OsRelease := ⟨"", "", ""⟩

def unquoted (value : String) : String :=
  String.ofList (Text.dropBothWhile (· == '"') (Text.trimChars value.toList))

/-- Takes in one line; lines without an equals sign say nothing. -/
def addLine (os : OsRelease) (line : String) : OsRelease :=
  match Text.cut '=' line with
  | none => os
  | some (key, value) =>
      match Text.trim key with
      | "ID" => { os with name := unquoted value }
      | "VERSION_CODENAME" => { os with versionName := unquoted value }
      | "VERSION_ID" => { os with versionId := unquoted value }
      | _ => os

/-- Reads a release file. It must name the system. -/
def parse? (content : ByteArray) : Option OsRelease :=
  let os := (Text.lines (Text.ofBytesLenient content)).foldl addLine empty
  if os.name.isEmpty then none else some os

/-- The system whose package names count. -/
def family (os : OsRelease) : String := if os.name = "ubuntu" then "debian" else os.name

def toNode (os : OsRelease) : Node :=
  .record [("name", .text os.name), ("version_name", .text os.versionName),
    ("version_id", .text os.versionId)]

open Decode in
def read : Reader OsRelease := fun node => do
  let fields ← record
    [required "name" text, optional "version_name" text, optional "version_id" text] node
  return {
    name := ← need fields "name" text
    versionName := ← get fields "version_name" text ""
    versionId := ← get fields "version_id" text "" }

end OsRelease
end ImageLock
