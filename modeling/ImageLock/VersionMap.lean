/-
Maps from names to version constraints, or to resolved versions.

The nil map stands for a map that was given as nothing: it reads as empty and
ignores whatever is written to it.
-/
import ImageLock.Names
import ImageLock.Decode
import ImageLock.Document.Json
import ImageLock.Text.Quoted

namespace ImageLock

structure VersionMap where
  content : Option (Names String)
deriving DecidableEq

namespace VersionMap

def empty : VersionMap := ⟨some Names.empty⟩

def nil : VersionMap := ⟨none⟩

instance : Inhabited VersionMap := ⟨empty⟩

def ofNames (names : Names String) : VersionMap := ⟨some names⟩

def ofList (entries : List (String × String)) : VersionMap := ofNames (Names.ofList entries)

/-- The entries; the nil map has none. -/
def toNames (m : VersionMap) : Names String := m.content.getD Names.empty

def entries (m : VersionMap) : List (String × String) := m.toNames.entries

def get? (m : VersionMap) (name : String) : Option String := m.toNames.find? name

def has (m : VersionMap) (name : String) : Bool := m.toNames.has name

def names (m : VersionMap) : List String := m.toNames.keys

def size (m : VersionMap) : Nat := m.toNames.size

def isEmpty (m : VersionMap) : Bool := m.size == 0

/-- Sets a version unless the name has one. -/
def add (m : VersionMap) (name version : String) : VersionMap :=
  ⟨m.content.map fun names => if names.has name then names else names.insert name version⟩

def overwrite (m : VersionMap) (name version : String) : VersionMap :=
  ⟨m.content.map fun names => names.insert name version⟩

/-- Overwrites with every entry of `overriding`. -/
def merge (m overriding : VersionMap) : VersionMap :=
  ⟨m.content.map fun names => names.merge overriding.toNames⟩

/-- The version that is taken out, and the map without it. -/
def remove (m : VersionMap) (name : String) : Option String × VersionMap :=
  (m.get? name, ⟨m.content.map fun names => names.erase name⟩)

def erase (m : VersionMap) (name : String) : VersionMap := (m.remove name).2

/-- Adds the names of a list, each with any version. -/
def addAny (m : VersionMap) (names : List String) : VersionMap :=
  names.foldl (fun m name => m.add name "*") m

def toNode (m : VersionMap) : Node :=
  match m.content with
  | some names => .record (names.entries.map fun (name, version) => (name, .text version))
  | none => .null

def read : Decode.Reader VersionMap := fun node => do
  match ← Decode.option (Decode.entries Decode.scalar) node with
  | some entries => return ofList entries
  | none => return nil

/-- The form for messages: entries between braces, or `nil`. -/
def describe (m : VersionMap) : String :=
  match m.content with
  | some names =>
      let entry := fun ((name, version) : String × String) =>
        Text.quoted name ++ ": " ++ Text.quoted version
      "\x7b" ++ Text.join ", " (names.entries.map entry) ++ "\x7d"
  | none => "nil"

end VersionMap
end ImageLock
