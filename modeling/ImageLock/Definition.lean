/-
Definition files and lock files as they are read, whatever their kind.
-/
import ImageLock.Context
import ImageLock.Digest.Sha256
import ImageLock.Document.Json
import ImageLock.Healthcheck
import ImageLock.VersionMap
import ImageLock.Yaml.Document

namespace ImageLock

/-- What a definition file and its lock file hold: the kind, the other fields
of the definition, and the fields of the lock file. -/
structure Definition where
  kind : String
  config : Fields
  locks : Fields

inductive DefinitionError where
  | unreadable (file : String)
  | notMapping (file : String)
  | missingKind (file : String)
  | undecodable (what : String) (mismatch : Mismatch)
  | badContext (error : ContextError)
  | unhashable
deriving DecidableEq, Repr

namespace DefinitionError

def message : DefinitionError → String
  | .unreadable file => "could not decode " ++ file
  | .notMapping file => "could not decode " ++ file ++ ": top-level value is not a mapping"
  | .missingKind file => file ++ " has no kind"
  | .undecodable what _ => "could not decode " ++ what
  | .badContext error => error.message
  | .unhashable => "could not hash definition"

/-- What the messages of the errors below this one say. -/
def causes : DefinitionError → List String
  | .undecodable _ mismatch => mismatch.detail?.toList
  | _ => []

end DefinitionError

namespace Definition

/-- The field of a lock file that holds the hash of its definition. -/
def hashField : String := "defhash"

/-- The field that holds a definition of a webserver, and its locks. -/
def webserverField : String := "webserver"

def empty : Definition := ⟨"", [], []⟩

def parseFields (file : String) (content : ByteArray) : Except DefinitionError Fields :=
  match Yaml.parse content with
  | .error _ => .error (.unreadable file)
  | .ok (.map fields) => .ok fields
  | .ok .null => .ok []
  | .ok _ => .error (.notMapping file)

/-- Reads a definition file. `file` is its name in messages. -/
def parse (file : String) (content : ByteArray) : Except DefinitionError Definition := do
  let fields ← parseFields file content
  match fields.take "kind" with
  | (some (.text kind), config) =>
      if kind.isEmpty then throw (.missingKind file) else return ⟨kind, config, []⟩
  | _ => throw (.missingKind file)

def withLocks (d : Definition) (file : String) (content : ByteArray) :
    Except DefinitionError Definition := do
  return { d with locks := ← parseFields file content }

/-- The text whose digest is the hash of a definition; locks do not count. A
definition with a key that is neither a text nor a number or truth value has
none. -/
def hashText? (d : Definition) : Option String :=
  (Json.ofNode? (.record [("kind", .text d.kind), ("raw_config", .map d.config)])).map
    Json.compact

def hash (d : Definition) : Except DefinitionError String :=
  match d.hashText? with
  | some text => .ok (Digest.sha256 text.toUTF8)
  | none => .error .unhashable

/-- The hash of the definition that the lock file was made from. -/
def lockedHash? (d : Definition) : Option String :=
  match d.locks.find? hashField with
  | some (.text hash) => some hash
  | _ => none

def nestedFields (fields : Fields) (name : String) : Fields :=
  match fields.find? name with
  | some (.map nested) => nested
  | _ => []

/-- The definition of a webserver inside this one, with its locks. -/
def webserver (d : Definition) : Definition :=
  ⟨webserverField, nestedFields d.config webserverField, nestedFields d.locks webserverField⟩

def decode {α : Type} (what : String) (read : Decode.Reader α) (fields : Fields) :
    Except DefinitionError α :=
  match read (.map fields) with
  | .ok value => .ok value
  | .error mismatch => .error (.undecodable what mismatch)

/-- Decodes locks, without the fields that belong to no kind. No locks at all
are the `absent` ones. -/
def decodeLocks {α : Type} (read : Decode.Reader α) (absent : α) (locks : Fields) :
    Except DefinitionError α :=
  let locks := (locks.remove hashField).remove webserverField
  if locks.isEmpty then .ok absent else decode "lock file" read locks

end Definition
end ImageLock
