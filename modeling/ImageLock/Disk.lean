/-
Files and directories.
-/
import ImageLock.Names
import ImageLock.Path

namespace ImageLock

/-- Files and directories by their places. A place is a path from the root
without dots, and the root itself is the empty one. What a place leads through
is a directory as well. `home` is the directory that other paths start from. -/
structure Disk where
  home : String
  files : Names ByteArray
  directories : List String

/-- What is found at a path. A path is blocked if it leads through a file, or
if it cannot be a path at all. -/
inductive Found where
  | file (content : ByteArray)
  | directory
  | missing
  | blocked

namespace Disk

/-- Nothing but the directory to start from. -/
def empty (home : String) : Disk := ⟨home, Names.empty, [home]⟩

/-- Whether `path` leads through `place`. -/
def leadsThrough (place path : String) : Bool := Text.startsWith (place ++ "/") path

def isDirectory (disk : Disk) (place : String) : Bool :=
  place.isEmpty || disk.directories.any (fun d => d == place || leadsThrough place d) ||
    disk.files.keys.any (leadsThrough place)

def at? (disk : Disk) (place : String) : Found :=
  match disk.files.find? place with
  | some content => .file content
  | none => if disk.isDirectory place then .directory else .missing

/-! Places as their parts, the innermost first. -/

def ofParts (parts : List String) : String := String.join (parts.reverse.map ("/" ++ ·))

def partsOf (path : String) : List String := (Path.parts path).2.reverse

/-- One step of a path. The root is above itself. -/
def enter (parts : List String) (piece : String) : List String :=
  if piece.isEmpty || piece == "." then parts
  else if piece == ".." then parts.drop 1
  else piece :: parts

/-- Where a path starts. -/
def origin (disk : Disk) (path : String) : List String :=
  if path.toList.head? == some '/' then [] else partsOf disk.home

def pieces (path : String) : List String :=
  (Text.splitWhere (· == '/') path.toList).map String.ofList

/-- The most bytes that a name can have. -/
def nameLimit : Nat := 255

/-- The most bytes that a path can have. -/
def pathLimit : Nat := 4095

/-- Follows the pieces of a path. Whatever a piece follows is a directory. -/
def follow (disk : Disk) (parts : List String) : List String → Found
  | [] => disk.at? (ofParts parts)
  | piece :: rest =>
      match disk.at? (ofParts parts) with
      | .directory =>
          if nameLimit < Text.byteLength piece.toList then .blocked
          else disk.follow (enter parts piece) rest
      | .file _ => .blocked
      | found => found

/-- Whether a text can be a path: it is not too long, and without the
character that would end it. -/
def canBePath (path : String) : Bool :=
  Text.byteLength path.toList ≤ pathLimit && !path.toList.contains '\x00'

def look (disk : Disk) (path : String) : Found :=
  if path.isEmpty then .missing
  else if canBePath path then disk.follow (disk.origin path) (pieces path)
  else .blocked

/-- The place of a path. -/
def place (disk : Disk) (path : String) : String :=
  ofParts ((pieces path).foldl enter (disk.origin path))

def write (disk : Disk) (path : String) (content : ByteArray) : Disk :=
  { disk with files := disk.files.insert (disk.place path) content }

def delete (disk : Disk) (path : String) : Disk :=
  { disk with files := disk.files.erase (disk.place path) }

def addDirectory (disk : Disk) (path : String) : Disk :=
  { disk with directories := disk.place path :: disk.directories }

end Disk
end ImageLock
